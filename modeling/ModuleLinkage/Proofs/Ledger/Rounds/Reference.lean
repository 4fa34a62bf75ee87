import ModuleLinkage.Proofs.Ledger.Course.Reach
import ModuleLinkage.Proofs.Ledger.Rounds.Deliveries

/-!
# A round does what its reference says

Callbacks do not disturb a round if none of them fails or enters the ledger again
(`World.Undisturbed`). Then the round performs its reference, from the first step to the last, and
nothing else (`propagateKept_reference`). Callbacks that yield values, assign variables, write
namespaces or only report never disturb a round (`undisturbed_of_quiet`).

The namespace of the entry has to exist. An entry can be kept longer than its namespace, and a round
over it then does nothing at all (`droppedNamespace_silent`).
-/

set_option autoImplicit false

namespace ModuleLinkage.Ledger

variable {run : Runner} {entry : EntryRef} {space : NamespaceRef} {step : RoundStep}
  {steps : List RoundStep} {start world middle after : World} {kept : List Holding} {batch : BatchRef}
  {name : String} {value : Value} {turns : List Turn} {values : List (String × Value)}
  {batches : List BatchRef}

/-! ### Rounds whose callbacks go on -/

/-- A step, with something else that its provider yields. -/
def RoundStep.yielding (yielded : Option Value) : RoundStep → RoundStep
  | asked kept provider _ => asked kept provider yielded
  | step => step

/-- No callback of a round over an entry fails or enters the ledger again: whatever providers yield,
each step of the reference leads somewhere from where the steps before it have led. -/
def World.Undisturbed (run : Runner) (world : World) (entry : EntryRef) : Prop :=
  ∀ turns, turns.map Turn.row = (world.entry entry).slots.rows →
    ∀ done step rest, world.reference entry turns = done ++ step :: rest →
      ∀ middle, Performed World.Spares run entry (world.entry entry).space done world middle →
        ∃ yielded after, (step.yielding yielded).Leads World.Spares run entry
          (world.entry entry).space middle after

/-- Steps that each lead somewhere are performed. -/
theorem exists_performed {meanwhile : Meanwhile}
    (h : ∀ done step rest, steps = done ++ step :: rest →
      ∀ middle, Performed meanwhile run entry space done world middle →
        ∃ after, step.Leads meanwhile run entry space middle after) :
    ∃ after, Performed meanwhile run entry space steps world after := by
  induction steps generalizing world with
  | nil => exact ⟨world, .nil world⟩
  | cons step rest ih =>
    obtain ⟨middle, hmiddle⟩ := h [] step rest rfl world (.nil world)
    have hrest : ∃ after, Performed meanwhile run entry space rest middle after := by
      refine ih fun done other later heq reached hdone => ?_
      exact h (step :: done) other later (by rw [heq, List.cons_append]) reached
        (.cons hmiddle hdone)
    obtain ⟨after, hafter⟩ := hrest
    exact ⟨after, .cons hmiddle hafter⟩

/-- What is delivered does not depend on what providers yield. -/
theorem yielding_passing (hmem : step ∈ start.passing kept batch name value) (yielded : Option Value) :
    step.yielding yielded = step := by
  rcases mem_passing hmem with ⟨space, rfl⟩ | rfl | ⟨row, -, rfl⟩ <;> rfl

theorem exists_passing (hmem : step ∈ start.delivering kept values batches) :
    ∃ kept, ∃ batch ∈ batches, ∃ name value, step ∈ start.passing kept batch name value := by
  induction batches with
  | nil => cases hmem
  | cons batch rest ih =>
    rcases List.mem_append.mp hmem with hmem | hmem
    · obtain ⟨row, -, hmem⟩ := List.mem_flatMap.mp hmem
      exact ⟨_, batch, List.mem_cons_self, _, _, hmem⟩
    · obtain ⟨kept, batch, hbatch, rest⟩ := ih hmem
      exact ⟨kept, batch, List.mem_cons_of_mem _ hbatch, rest⟩

/-- A round whose callbacks go on performs its reference. -/
theorem World.Undisturbed.exists_turns (h : world.Undisturbed run entry) :
    ∃ turns after, turns.map Turn.row = (world.entry entry).slots.rows ∧
      Performed World.Spares run entry (world.entry entry).space (world.reference entry turns) world
        after := by
  rcases Ledger.exists_turns World.Spares run entry (world.entry entry).space
      [.space (world.entry entry).space] (world.entry entry).slots.rows world with
    ⟨turns, refreshed, hturns, hasked⟩ | ⟨turns, row, rest, middle, hturns, hhalts⟩
  · have hdelivers : ∃ after, Performed World.Spares run entry (world.entry entry).space
        (world.delivering ((world.taken entry turns).flatMap fun row => row.2.holdings)
          (world.taken entry turns) (world.entry entry).batches) refreshed after := by
      refine exists_performed fun done step rest heq middle hdone => ?_
      obtain ⟨yielded, after, hleads⟩ := h turns hturns _ step rest
        ((congrArg (_ ++ ·) heq).trans (List.append_assoc ..).symm) middle (hasked.append hdone)
      obtain ⟨_, _, -, _, _, hmem⟩ := exists_passing
        (heq ▸ List.mem_append_right done List.mem_cons_self)
      rw [yielding_passing hmem] at hleads
      exact ⟨after, hleads⟩
    obtain ⟨after, hafter⟩ := hdelivers
    exact ⟨turns, after, hturns, hasked.append hafter⟩
  · -- The slot whose provider does not go on has a turn all the same if it is said to yield nothing.
    exfalso
    let last : Turn := ⟨row.1, row.2, none⟩
    let others : List Turn := rest.map fun row => ⟨row.1, row.2, none⟩
    have hothers : others.map Turn.row = rest := by
      rw [List.map_map]
      exact List.map_id rest
    have hall : (turns ++ last :: others).map Turn.row = (world.entry entry).slots.rows := by
      rw [List.map_append, List.map_cons, hothers]
      exact hturns
    have hlast (kept : List Holding) : asking [] kept (last :: others) =
        .asked (waiting row.2 rest kept) row.2.provider none ::
          (last.written ++ asking [] (last.given.toList.flatMap Value.holdings ++ kept) others) := by
      rw [asking, List.append_nil, hothers, Turn.asked, hhalts.unkept]
      rfl
    have hreference := asking_append [] [.space (world.entry entry).space] turns (last :: others)
    rw [List.append_nil, List.map_cons, hothers, hlast] at hreference
    obtain ⟨yielded, after, hleads⟩ := h _ hall _ _ _
      ((congrArg (· ++ _) hreference).trans (List.append_assoc ..)) middle hhalts.performed
    exact hhalts.halts yielded after hleads

/-! ### Quiet callbacks -/

/-- Whether a provider yields what is at hand, or counts how often it is called. -/
def Source.isQuiet : Source → Bool
  | .value _ => true
  | .binding _ => true
  | .counted _ none _ => true
  | _ => false

/-- Whether a consumer assigns a variable, writes a namespace, or only reports. -/
def Consumer.isQuiet : Consumer → Bool
  | .assign _ => true
  | .copyInto _ => true
  | .callback _ lines _ => lines.isEmpty

/-- A callback has spared the ledger, holds on to nothing more, and left the providers as they are. -/
structure World.Undergone (own : List Callback) (before after : World) : Prop
    extends World.Spares own before after where
  held : after.held = before.held
  source : ∀ ref, (after.provider ref).source = (before.provider ref).source

theorem source_noteCall (world : World) (provider ref : ProviderRef) :
    ((world.noteCall provider).2.provider ref).source = (world.provider ref).source :=
  (world.asked_noteCall provider).source ref

/-- Asking a quiet provider. -/
theorem outcome_ask_of_isQuiet (run : Runner) (world : World) {provider : ProviderRef}
    (h : (world.provider provider).source.isQuiet = true) :
    ∃ yielded after, (ask run provider).outcome world = (.ok yielded, after) ∧
      world.Undergone [.provider provider] after := by
  have hnoted : world.Undergone [.provider provider] (world.noteCall provider).2 :=
    ⟨⟨rfl, rfl, rfl⟩, rfl, source_noteCall world provider⟩
  have hsource := source_noteCall world provider provider
  rw [ask, Effect.outcome_bind]
  simp only [Effect.outcome_modifyGet, Effect.outcome_bind, Effect.outcome_get, hsource]
  revert h
  cases (world.provider provider).source with
  | value value => exact fun _ => ⟨_, _, rfl, hnoted⟩
  | binding binding => exact fun _ => ⟨_, _, rfl, hnoted⟩
  | counted label term scope =>
    cases term with
    | none => exact fun _ => ⟨_, _, rfl, ⟨⟨rfl, rfl, rfl⟩, rfl, hnoted.source⟩⟩
    | some term =>
      intro h
      cases h
  | listed | failing | computed =>
    intro h
    cases h

/-- Showing a value may give a name to a namespace. -/
theorem outcome_showValue (value : Value) (world : World) :
    ∃ shown after, (showValue value).outcome world = (.ok shown, after) ∧ world.Undergone [] after := by
  have hrefl : world.Undergone [] world := ⟨⟨rfl, rfl, rfl⟩, rfl, fun _ => rfl⟩
  cases value with
  | undefined | null | bool | number | text | object => exact ⟨_, _, rfl, hrefl⟩
  | space ref =>
    refine ⟨_, _, rfl, ?_⟩
    change world.Undergone [] (world.nameOfSpace ref).2
    unfold World.nameOfSpace
    split
    · exact hrefl
    · exact ⟨⟨rfl, rfl, rfl⟩, rfl, fun _ => rfl⟩

/-- What a quiet consumer does with a value, where running no lines does nothing. -/
theorem outcome_respond_of_isQuiet {consumer : Consumer} (h : consumer.isQuiet = true)
    (hrun : ∀ scope label world, (run scope label []).outcome world = (.ok (), world)) (name : String)
    (value : Value) (world : World) :
    ∃ after, (consumer.respond run name value).outcome world = (.ok (), after) ∧
      world.Undergone [] after := by
  cases consumer with
  | assign binding => exact ⟨_, rfl, ⟨⟨rfl, rfl, rfl⟩, rfl, fun _ => rfl⟩⟩
  | copyInto space => exact ⟨_, rfl, ⟨⟨rfl, rfl, rfl⟩, rfl, fun _ => rfl⟩⟩
  | callback label lines scope =>
    obtain rfl : lines = [] := List.isEmpty_iff.mp h
    have hnothing (before : World) : (run { scope with received := some (value, name) } "setter"
        []).attempt.outcome before = (.ok (.ok ()), before) := by
      rw [Effect.outcome_attempt, hrun]
    cases label with
    | none =>
      refine ⟨world, ?_, ⟨⟨rfl, rfl, rfl⟩, rfl, fun _ => rfl⟩⟩
      exact Effect.outcome_bind_of_ok _ (hnothing world)
    | some label =>
      obtain ⟨shown, after, hshown, hundergone⟩ := outcome_showValue value world
      refine ⟨after.addEvent (.received label name shown), ?_,
        ⟨⟨hundergone.entries, hundergone.batches, hundergone.calls⟩, hundergone.held,
          hundergone.source⟩⟩
      rw [Consumer.respond, Effect.outcome_bind, hshown]
      exact Effect.outcome_bind_of_ok _ (hnothing _)

/-- Calling a quiet consumer. -/
theorem outcome_receive_of_isQuiet {consumer : Consumer} (h : consumer.isQuiet = true)
    (hrun : ∀ scope label world, (run scope label []).outcome world = (.ok (), world))
    (batch : BatchRef) (slot name : String) (value : Value) (world : World) :
    ∃ after, (consumer.receive run batch slot name value).outcome world = (.ok (), after) ∧
      world.Undergone [.consumer batch slot name value] after := by
  obtain ⟨after, hresponds, hundergone⟩ := outcome_respond_of_isQuiet h hrun name value
    (world.logCall (.consumer batch slot name value))
  refine ⟨after, ?_, ⟨⟨hundergone.entries, hundergone.batches, hundergone.calls⟩, hundergone.held,
    hundergone.source⟩⟩
  rw [Consumer.receive_eq, Effect.outcome_bind, Effect.outcome_modify]
  exact hresponds

/-- Whether the callback in a step is quiet. -/
def RoundStep.IsQuiet (world : World) : RoundStep → Prop
  | asked _ provider _ => (world.provider provider).source.isQuiet = true
  | called _ _ _ consumer _ _ => consumer.isQuiet = true
  | _ => True

/-- A step with a quiet callback leads somewhere. -/
theorem exists_leads_of_isQuiet (hrun : ∀ scope label world, (run scope label []).outcome world =
    (.ok (), world)) (hquiet : step.IsQuiet world) :
    ∃ yielded after, (step.yielding yielded).Leads World.Spares run entry space world after := by
  cases step with
  | asked kept provider yielded =>
    obtain ⟨yielded, after, hask, hundergone⟩ :=
      outcome_ask_of_isQuiet run (world.holding (kept ++ world.held)) hquiet
    refine ⟨yielded, after.holding world.held, .asked ?_ ?_⟩
    · rw [Effect.outcome_holding_eq, hask]
      rfl
    · exact ⟨hundergone.entries, hundergone.batches, hundergone.calls⟩
  | kept name provider value => exact ⟨none, _, .kept name provider value world⟩
  | stored name value => exact ⟨none, _, .stored name value world⟩
  | mirrored space name value => exact ⟨none, _, .mirrored space name value world⟩
  | signed batch name => exact ⟨none, _, .signed batch name world⟩
  | called kept batch slot consumer name value =>
    obtain ⟨after, hreceive, hundergone⟩ := outcome_receive_of_isQuiet hquiet hrun batch slot name value
      ((world.noteSeen batch slot name value).holding (kept ++ world.held))
    refine ⟨none, after.holding world.held, .called ?_ rfl ?_⟩
    · rw [hreceive]
      exact congrArg (Prod.mk _) (World.holding_eq_self hundergone.held).symm
    · exact ⟨hundergone.entries, hundergone.batches, hundergone.calls⟩

/-- A step with a quiet callback leaves the providers as they are. -/
theorem source_of_leads (hrun : ∀ scope label world, (run scope label []).outcome world =
    (.ok (), world)) (hquiet : step.IsQuiet world)
    (h : step.Leads World.Spares run entry space world after) (ref : ProviderRef) :
    (after.provider ref).source = (world.provider ref).source := by
  cases h with
  | @asked kept provider _ _ _ hasked _ =>
    obtain ⟨_, final, hask, hundergone⟩ :=
      outcome_ask_of_isQuiet run (world.holding (kept ++ world.held)) hquiet
    rw [Effect.outcome_holding_eq, hask] at hasked
    obtain rfl : final.holding world.held = after := congrArg Prod.snd hasked
    exact hundergone.source ref
  | kept name provider value =>
    exact (world.alike_keepValue entry name provider value).source ref
  | stored | mirrored | signed => rfl
  | @called kept batch slot consumer name value _ _ hreceived _ _ =>
    obtain ⟨final, hreceive, hundergone⟩ := outcome_receive_of_isQuiet hquiet hrun batch slot name value
      ((world.noteSeen batch slot name value).holding (kept ++ world.held))
    rw [hreceive] at hreceived
    obtain rfl : final = after.holding (kept ++ world.held) := congrArg Prod.snd hreceived
    exact hundergone.source ref

/-- Providers that stay as they are stay quiet. -/
theorem RoundStep.IsQuiet.of_source (h : step.IsQuiet world)
    (hsource : ∀ ref, (after.provider ref).source = (world.provider ref).source) :
    step.IsQuiet after := by
  cases step with
  | asked kept provider yielded => exact (congrArg Source.isQuiet (hsource provider)).trans h
  | called => exact h
  | kept | stored | mirrored | signed => trivial

/-- Steps with quiet callbacks leave the providers as they are. -/
theorem Performed.source_of_isQuiet (hrun : ∀ scope label world, (run scope label []).outcome world =
    (.ok (), world)) (h : Performed World.Spares run entry space steps world after)
    (hquiet : ∀ step ∈ steps, step.IsQuiet world) (ref : ProviderRef) :
    (after.provider ref).source = (world.provider ref).source := by
  refine h.invariant (fun after => ∀ ref, (after.provider ref).source = (world.provider ref).source)
    (fun _ => rfl) (fun step hmem before next hleads hbefore ref => ?_) ref
  exact (source_of_leads hrun ((hquiet step hmem).of_source hbefore) hleads ref).trans (hbefore ref)

theorem RoundStep.BelongsTo.isQuiet {turn : Turn} (h : step.BelongsTo turn)
    (hprovider : (world.provider turn.slot.provider).source.isQuiet = true) : step.IsQuiet world := by
  obtain ⟨-, _, rfl⟩ | ⟨value, -, ⟨-, rfl⟩ | rfl⟩ := h
  · exact hprovider
  · trivial
  · trivial

/-- Slots with quiet providers have their turns. -/
theorem exists_turns_of_isQuiet (hrun : ∀ scope label world, (run scope label []).outcome world =
    (.ok (), world)) (later : List (String × Slot)) (kept : List Holding)
    {slots : List (String × Slot)}
    (hquiet : ∀ row ∈ slots, (world.provider row.2.provider).source.isQuiet = true) :
    ∃ turns after, turns.map Turn.row = slots ∧
      Performed World.Spares run entry space (asking later kept turns) world after ∧
      ∀ ref, (after.provider ref).source = (world.provider ref).source := by
  induction slots generalizing world kept with
  | nil => exact ⟨[], world, rfl, .nil world, fun _ => rfl⟩
  | cons row rest ih =>
    obtain ⟨hfirst, hrest⟩ := List.forall_mem_cons.mp hquiet
    have hturn : ∃ yielded asked, Performed World.Spares run entry space
        (Turn.asked ⟨row.1, row.2, yielded⟩ (waiting row.2 (rest ++ later) kept)) world asked := by
      cases hkept : row.2.kept? with
      | some value => exact ⟨none, world, by rw [Turn.asked, hkept]; exact .nil world⟩
      | none =>
        let step : RoundStep := .asked (waiting row.2 (rest ++ later) kept) row.2.provider none
        have hstep : step.IsQuiet world := hfirst
        obtain ⟨yielded, asked, hleads⟩ := exists_leads_of_isQuiet hrun hstep
        exact ⟨yielded, asked, by rw [Turn.asked, hkept]; exact .cons hleads (.nil asked)⟩
    obtain ⟨yielded, asked, hasked⟩ := hturn
    let turn : Turn := ⟨row.1, row.2, yielded⟩
    have hwritten := hasked.append ((performed_written turn).mpr rfl)
    have hsource := hwritten.source_of_isQuiet hrun fun step hmem => by
      have hmem : step ∈ asking (rest ++ later) kept [turn] := List.mem_append_left _ hmem
      obtain ⟨_, hturn, hbelongs⟩ := exists_turn_of_mem hmem
      obtain rfl := List.mem_singleton.mp hturn
      exact hbelongs.isQuiet hfirst
    obtain ⟨turns, after, hturns, hperformed, hlater⟩ :=
      ih (turn.given.toList.flatMap Value.holdings ++ kept) fun other hother =>
        (congrArg Source.isQuiet (hsource other.2.provider)).trans (hrest other hother)
    refine ⟨turn :: turns, after, by rw [List.map_cons, hturns]; rfl, ?_,
      fun ref => (hlater ref).trans (hsource ref)⟩
    rw [asking, hturns]
    exact hwritten.append hperformed

/-- The callbacks of a round are quiet if the providers of its entry and the consumers of its batches
are. -/
theorem isQuiet_of_mem_reference
    (hproviders : ∀ row ∈ (world.entry entry).slots.rows,
      (world.provider row.2.provider).source.isQuiet = true)
    (hconsumers : ∀ batch ∈ (world.entry entry).batches, ∀ row ∈ (world.batch batch).consumers.rows,
      row.2.isQuiet = true)
    (hturns : turns.map Turn.row = (world.entry entry).slots.rows)
    (hmem : step ∈ world.reference entry turns) : step.IsQuiet world := by
  rcases List.mem_append.mp hmem with hmem | hmem
  · obtain ⟨turn, hturn, hbelongs⟩ := exists_turn_of_mem hmem
    exact hbelongs.isQuiet (hproviders turn.row (hturns ▸ List.mem_map_of_mem hturn))
  · obtain ⟨_, batch, hbatch, name, value, hmem⟩ := exists_passing hmem
    rcases mem_passing hmem with ⟨space, rfl⟩ | rfl | ⟨row, hrow, rfl⟩
    · trivial
    · trivial
    · rw [← Batch.concerned_eq] at hrow
      obtain ⟨other, hother, hsame⟩ := mem_rows_of_mem_concerned hrow
      exact hsame ▸ hconsumers batch hbatch other hother

/-- Quiet callbacks do not disturb a round. -/
theorem undisturbed_of_quiet
    (hrun : ∀ scope label world, (run scope label []).outcome world = (.ok (), world))
    (hproviders : ∀ row ∈ (world.entry entry).slots.rows,
      (world.provider row.2.provider).source.isQuiet = true)
    (hconsumers : ∀ batch ∈ (world.entry entry).batches, ∀ row ∈ (world.batch batch).consumers.rows,
      row.2.isQuiet = true) : world.Undisturbed run entry := by
  intro turns hturns done step rest heq middle hdone
  have hquiet : ∀ step ∈ world.reference entry turns, step.IsQuiet world :=
    fun step hmem => isQuiet_of_mem_reference hproviders hconsumers hturns hmem
  -- Providers stay as they are, so that what is quiet in the beginning stays so.
  have hsource := hdone.source_of_isQuiet hrun fun step hmem =>
    hquiet step (heq ▸ List.mem_append_left _ hmem)
  exact exists_leads_of_isQuiet hrun
    ((hquiet step (heq ▸ List.mem_append_right _ List.mem_cons_self)).of_source hsource)

/-! ### The result -/

/-- **A round does exactly what its reference says.** For an entry whose namespace still exists,
with any slots and any batches, no callback of which fails or enters the ledger again, there is what
the slots yield in turn so that the round does the steps of the reference one after the other and
nothing else: it ends without failing where they lead, and it has called the callbacks in them, in
their order, and no other. -/
theorem propagateKept_reference (horder : world.InOrder) (hspace : (world.spaceOf? entry).isSome = true)
    (hcallbacks : world.Undisturbed run entry) :
    ∃ turns after, turns.map Turn.row = (world.entry entry).slots.rows ∧
      Performed World.Spares run entry (world.entry entry).space (world.reference entry turns) world
        after ∧
      (propagateKept run entry).outcome world = (.ok (), after) ∧
      after.calls =
        ((world.reference entry turns).filterMap RoundStep.callback?).reverse ++ world.calls := by
  obtain ⟨turns, after, hturns, hperformed⟩ := hcallbacks.exists_turns
  refine ⟨turns, after, hturns, hperformed, ?_, hperformed.calls⟩
  obtain ⟨ref, hexists⟩ := Option.isSome_iff_exists.mp hspace
  rw [propagateKept, Effect.outcome_bind]
  simp only [Effect.outcome_get, hexists]
  exact outcome_propagate horder hturns hperformed

/-- A module exports a variable, another one without a value, a name that stands for all names, and
a constant; one batch of it has a namespace and takes every name, another one takes one name. All of
them have been called before, and the variable has a new value. -/
def surveying : Program :=
  [(Command.createModule "m" "m" true).line, (Command.createNamespace "p").line,
   (Command.createNamespace "q").line, (Command.createBinding "b" (some (.text "one"))).line,
   (Command.createBinding "u" none).line,
   (Command.provide (some "m") [(.fixed "x", .binding "b"), (.fixed "u", .binding "u"),
     (.fixed "*", .value (.text "star"))] false).line,
   (Command.provide (some "m") [(.fixed "y", .counted "y" none)] true).line,
   (Command.watch (some "m") (.exportsOf "m")
     { consumers := some [(.fixed "x", .assign "s"), (.fixed "*", .copyInto (.named "q"))]
       key := none, spaces := [.named "p"] }).line,
   (Command.watch (some "m") (.exportsOf "m")
     { consumers := some [(.fixed "x", .callback (some "heard") [])], key := none, spaces := [] }).line,
   (Command.propagate (some "m") .undefined).line, (Command.setBinding "b" (.text "two")).line]

/-- The world after that. -/
def surveyed : World :=
  (World.ofHost default).afterwards 4 surveying

theorem inOrder_afterwards (depth : Nat) (program : Program) :
    ((World.ofHost default).afterwards depth program).InOrder :=
  ((World.coherent_ofHost default).inSight.leadsOn.program depth program).coherent
    (World.coherent_ofHost default) |>.inOrder

/-- The result for that module: the constant is not asked again, nothing is given for the variable
without a value, and of the other two values only the new one is news, to three consumers. -/
theorem propagateKept_reference_surveyed :
    surveyed.InOrder ∧ (surveyed.spaceOf? ⟨0⟩).isSome = true ∧
      surveyed.Undisturbed (runner 4) ⟨0⟩ ∧
      (∃ turns after, turns.map Turn.row = (surveyed.entry ⟨0⟩).slots.rows ∧
        Performed World.Spares (runner 4) ⟨0⟩ (surveyed.entry ⟨0⟩).space (surveyed.reference ⟨0⟩ turns)
          surveyed after ∧
        (propagateKept (runner 4) ⟨0⟩).outcome surveyed = (.ok (), after) ∧
        after.calls =
          ((surveyed.reference ⟨0⟩ turns).filterMap RoundStep.callback?).reverse ++ surveyed.calls) ∧
      ((propagateKept (runner 4) ⟨0⟩).outcome surveyed).2.calls.length = surveyed.calls.length + 6 := by
  have horder : surveyed.InOrder := inOrder_afterwards 4 surveying
  have hspace : (surveyed.spaceOf? ⟨0⟩).isSome = true := by decide +kernel
  have hcallbacks : surveyed.Undisturbed (runner 4) ⟨0⟩ :=
    undisturbed_of_quiet (fun _ _ _ => rfl) (by decide +kernel) (by decide +kernel)
  exact ⟨horder, hspace, hcallbacks, propagateKept_reference horder hspace hcallbacks,
    by decide +kernel⟩

/-- An entry is kept, and its namespace is not. -/
def dropping : Program :=
  [(Command.createNamespace "n").line, (Command.openEntry (.named "n") none (some "e")).line,
   (Command.addProviders (.kept "e") [(.fixed "x", .counted "c" none)] false).line,
   (Command.dropNamespace "n").line]

/-- The world after that. -/
def dropped : World :=
  (World.ofHost default).afterwards 4 dropping

/-- A round over an entry whose namespace is gone calls no provider, although there is one that is not
constant, and so does not perform its reference. -/
theorem droppedNamespace_silent :
    dropped.InOrder ∧ dropped.Undisturbed (runner 4) ⟨0⟩ ∧
      (propagateKept (runner 4) ⟨0⟩).outcome dropped = (.ok (), dropped) ∧
      ¬ ∃ turns after, turns.map Turn.row = (dropped.entry ⟨0⟩).slots.rows ∧
        Performed World.Spares (runner 4) ⟨0⟩ (dropped.entry ⟨0⟩).space (dropped.reference ⟨0⟩ turns)
          dropped after ∧
        (propagateKept (runner 4) ⟨0⟩).outcome dropped = (.ok (), after) := by
  have hgone : dropped.spaceOf? ⟨0⟩ = none := by decide +kernel
  have hsilent : (propagateKept (runner 4) ⟨0⟩).outcome dropped = (.ok (), dropped) := by
    rw [propagateKept, Effect.outcome_bind]
    simp only [Effect.outcome_get, hgone]
    rfl
  have hquiet : dropped.Undisturbed (runner 4) ⟨0⟩ :=
    undisturbed_of_quiet (fun _ _ _ => rfl) (by decide +kernel) (by decide +kernel)
  refine ⟨inOrder_afterwards 4 dropping, hquiet, hsilent, ?_⟩
  rintro ⟨turns, after, hturns, hperformed, houtcome⟩
  obtain rfl : dropped = after := congrArg Prod.snd (hsilent.symm.trans houtcome)
  -- The one slot has kept nothing, so that its provider is called in the reference.
  have hcount : (dropped.entry ⟨0⟩).slots.rows.length = 1 := by decide +kernel
  have hunkept : ∀ row ∈ (dropped.entry ⟨0⟩).slots.rows, row.2.kept?.isNone = true := by
    decide +kernel
  rw [← hturns, List.length_map] at hcount
  obtain ⟨turn, rfl⟩ := List.length_eq_one_iff.mp hcount
  have hnone : turn.slot.kept? = none :=
    Option.isNone_iff_eq_none.mp (hunkept turn.row (hturns ▸ List.mem_cons_self))
  obtain ⟨held, hasked⟩ := exists_asked_of_mem [] [.space (dropped.entry ⟨0⟩).space]
    List.mem_cons_self hnone
  have hcalled : Callback.provider turn.slot.provider ∈
      (dropped.reference ⟨0⟩ [turn]).filterMap RoundStep.callback? :=
    List.mem_filterMap.mpr ⟨_, List.mem_append_left _ hasked, rfl⟩
  rw [List.reverse_eq_nil_iff.mp (List.self_eq_append_left.mp hperformed.calls)] at hcalled
  cases hcalled

end ModuleLinkage.Ledger
