import ModuleLinkage.Proofs.Ledger.Rounds.Reference

/-!
# Rounds that a provider ends

A provider that fails ends its round (`FailsAt`, `aborted_of_failsAt`). The round hands back the
provider's own error. Until then it has asked the slots before that one and done nothing else: no
consumer was called, the batches are as they were, and in the ledger nothing is different but that
constant slots before the one that failed may have kept a value. What namespaces show may differ
under the names of these slots in the entry's own namespace, and where a provider itself has
written; providers may write into namespaces like any program (`namespaceOfBatch_written`).

The operations that begin rounds add nothing to that: each of them hands back the error of its round
(`HandsBack`).
-/

set_option autoImplicit false

namespace ModuleLinkage.Ledger

variable {run : Runner} {entry : EntryRef} {space : NamespaceRef} {step : RoundStep}
  {steps : List RoundStep} {world middle failed after : World} {first : List Turn}
  {row : String × Slot} {rest : List (String × Slot)} {fault : Fault}

/-! ### What changes while slots are asked -/

/-- What is different after some steps was changed by one of them. -/
theorem Performed.exists_change {α : Type} {meanwhile : Meanwhile} (view : World → α)
    (h : Performed meanwhile run entry space steps world after) (hne : view after ≠ view world) :
    ∃ done step later before next, steps = done ++ step :: later ∧
      Performed meanwhile run entry space done world before ∧
      step.Leads meanwhile run entry space before next ∧ view next ≠ view before := by
  induction h with
  | nil => exact absurd rfl hne
  | @cons step rest world middle after hstep _ ih =>
    by_cases hsame : view middle = view world
    · obtain ⟨done, other, later, before, next, rfl, hdone, hother, hchanged⟩ := ih (hsame ▸ hne)
      exact ⟨step :: done, other, later, before, next, rfl, .cons hstep hdone, hother, hchanged⟩
    · exact ⟨[], step, rest, world, middle, rfl, .nil world, hstep, hsame⟩

/-- Keeping a value changes the slot of its name and nothing else in the entry. -/
theorem World.entry_keepValue (world : World) (ref : EntryRef) (name : String) (provider : ProviderRef)
    (value : Value) (other : EntryRef) :
    (world.keepValue ref name provider value).entry other = world.entry other ∨
      other = ref ∧ ∃ slot, (world.entry ref).slots.get? name = some slot ∧
        slot.provider = provider ∧ slot.cached = none ∧
        (world.keepValue ref name provider value).entry ref = { world.entry ref with
          slots := (world.entry ref).slots.put name { slot with cached := some value } } := by
  unfold World.keepValue
  rw [World.entry_updateEntry]
  split
  · next hother =>
    obtain ⟨rfl, hlt⟩ := hother
    split
    · next slot hslot =>
      split
      · next hfree =>
        obtain ⟨hprovider, hcached⟩ : slot.provider = provider ∧ slot.cached = none := by
          simpa using hfree
        refine .inr ⟨rfl, slot, hslot, hprovider, hcached, ?_⟩
        rw [World.entry_updateEntry, if_pos ⟨rfl, hlt⟩, hslot]
        simp [hprovider, hcached]
      · exact .inl rfl
    · exact .inl rfl
  · exact .inl rfl

/-- Asking the slot of a turn changes of all entries at most what the slot of its name has kept. -/
theorem RoundStep.Leads.entry_of_belongsTo {turn : Turn}
    (h : step.Leads World.Spares run entry space world after) (hbelongs : step.BelongsTo turn)
    (other : EntryRef) :
    after.entry other = { world.entry other with slots := (after.entry other).slots } ∧
      ∀ name, (other ≠ entry ∨ name ≠ turn.name) →
        (after.entry other).slots.get? name = (world.entry other).slots.get? name := by
  have hsame {next : World} (heq : next.entry other = world.entry other) :
      next.entry other = { world.entry other with slots := (next.entry other).slots } ∧
        ∀ name, (other ≠ entry ∨ name ≠ turn.name) →
          (next.entry other).slots.get? name = (world.entry other).slots.get? name :=
    ⟨by rw [heq], fun name _ => by rw [heq]⟩
  obtain ⟨-, _, rfl⟩ | ⟨value, -, ⟨-, rfl⟩ | rfl⟩ := hbelongs
  · cases h with
    | asked _ hspares => exact hsame (hspares.entryAt other)
  · cases h with
    | kept =>
      rcases world.entry_keepValue entry turn.name turn.slot.provider value other with
        heq | ⟨rfl, slot, -, -, -, heq⟩
      · exact hsame heq
      · rw [heq]
        refine ⟨rfl, fun name hname => ?_⟩
        exact Table.get?_put_of_ne _ _ (hname.resolve_left fun hne => hne rfl)
  · cases h with
    | stored => exact hsame rfl

/-- Asking slots changes neither who owns entries nor which of them are loaded nor which batches
they have, and of their slots at most what those that have had their turns have kept. -/
theorem Performed.entry_asking {later : List (String × Slot)} {kept : List Holding} {turns : List Turn}
    (h : Performed World.Spares run entry space (asking later kept turns) world after)
    (other : EntryRef) :
    after.entry other = { world.entry other with slots := (after.entry other).slots } ∧
      ∀ name, (other ≠ entry ∨ name ∉ turns.map (·.name)) →
        (after.entry other).slots.get? name = (world.entry other).slots.get? name := by
  refine h.invariant (fun after =>
    after.entry other = { world.entry other with slots := (after.entry other).slots } ∧
      ∀ name, (other ≠ entry ∨ name ∉ turns.map (·.name)) →
        (after.entry other).slots.get? name = (world.entry other).slots.get? name)
    ⟨rfl, fun _ _ => rfl⟩ fun step hmem before next hstep hbefore => ?_
  obtain ⟨turn, hturn, hbelongs⟩ := exists_turn_of_mem hmem
  obtain ⟨hentry, hslots⟩ := hstep.entry_of_belongsTo hbelongs other
  refine ⟨hentry.trans (by rw [hbefore.1]), fun name hname => ?_⟩
  refine (hslots name (hname.imp_right fun hnew heq => ?_)).trans (hbefore.2 name hname)
  exact hnew (heq ▸ List.mem_map_of_mem hturn)

theorem Performed.batches_asking {later : List (String × Slot)} {kept : List Holding}
    {turns : List Turn}
    (h : Performed World.Spares run entry space (asking later kept turns) world after) :
    after.batches = world.batches := by
  refine h.invariant (fun after => after.batches = world.batches) rfl
    fun step hmem before next hstep hbefore => ?_
  obtain ⟨turn, -, ⟨-, _, rfl⟩ | ⟨value, -, ⟨-, rfl⟩ | rfl⟩⟩ := exists_turn_of_mem hmem
  · cases hstep with
    | asked _ hspares => exact hspares.batches.trans hbefore
  · cases hstep with
    | kept => exact hbefore
  · cases hstep with
    | stored => exact hbefore

/-- While slots are asked no consumer is called. -/
theorem isConsumer_asking {later : List (String × Slot)} {kept : List Holding} {turns : List Turn}
    {callback : Callback}
    (hmem : callback ∈ (asking later kept turns).filterMap RoundStep.callback?) :
    callback.isConsumer = false := by
  obtain ⟨step, hstep, hcallback⟩ := List.mem_filterMap.mp hmem
  obtain ⟨turn, -, ⟨-, _, rfl⟩ | ⟨value, -, ⟨-, rfl⟩ | rfl⟩⟩ := exists_turn_of_mem hstep
  · obtain rfl := Option.some.inj hcallback
    rfl
  · cases hcallback
  · cases hcallback

/-! ### A provider that fails -/

/-- In a round over an entry a provider is the first to fail, and providers do not enter the ledger
again. The slots before the one that fails have had their turns `first`, which has led to the world
`middle`. -/
structure FailsAt (run : Runner) (entry : EntryRef) (first : List Turn) (row : String × Slot)
    (rest : List (String × Slot)) (fault : Fault) (world middle failed : World) : Prop where
  slots : first.map Turn.row ++ row :: rest = (world.entry entry).slots.rows
  before : Performed World.Spares run entry (world.entry entry).space
    (asking (row :: rest) [.space (world.entry entry).space] first) world middle
  unkept : row.2.kept? = none
  fails : (Effect.holding (waiting row.2 rest (keptAfter [.space (world.entry entry).space] first))
    (ask run row.2.provider)).outcome middle = (.error fault, failed)
  spares : middle.Spares [.provider row.2.provider] failed

/-- A provider that was asked before the failure, or the one that failed, has itself changed
something in the world. -/
inductive ChangedByProvider {α : Type} (view : World → α) (run : Runner) (entry : EntryRef)
    (first : List Turn) (row : String × Slot) (rest : List (String × Slot))
    (world middle failed : World) : Prop
  | asked {done later : List RoundStep} {held : List Holding} {provider : ProviderRef}
      {yielded : Option Value} {before next : World}
      (hsteps : asking (row :: rest) [.space (world.entry entry).space] first =
        done ++ .asked held provider yielded :: later)
      (hdone : Performed World.Spares run entry (world.entry entry).space done world before)
      (hasked : (RoundStep.asked held provider yielded).Leads World.Spares run entry
        (world.entry entry).space before next)
      (hchanged : view next ≠ view before)
  | failed (hchanged : view failed ≠ view middle)

/-- The round of an operation begins: in `world` it is called for over a namespace, and it begins
over the entry of that in `begun`. -/
structure World.BeginsRound (world : World) (space : NamespaceRef) (entry : EntryRef) (begun : World) :
    Prop where
  entryOf : (world.space space).entry = some entry
  begun : world.holding ([.entry entry] ++ ([.space space] ++ world.held)) = begun

/-- Whatever operation has come to a round over an entry that begins in a world hands back the error
of that round. -/
structure HandsBack (run : Runner) (entry : EntryRef) (begun : World) (fault : Fault) : Prop where
  /-- An export by a loaded module. -/
  provide : ∀ {world : World} {module : ModuleRef} {providers : Table ProviderRef}
    {isConstant : Bool} {registered : World},
    (world.claimExports module).1 = entry →
    (world.claimExports module).2.addProviders entry providers isConstant = registered →
    (registered.module module).isLoaded = true →
    registered.holding ([.entry entry] ++ registered.held) = begun →
    ((Ledger.provide run module providers isConstant).outcome world).1 = .error fault
  /-- An import at once. -/
  importNow : ∀ {world requested subscribed : World} {module : ModuleRef} {specifier : String}
    {registration : Registration} {exports : NamespaceRef},
    (Effect.holding registration.holdings (request run module specifier)).outcome world =
      (.ok exports, requested) →
    (subscribe module exports registration).outcome requested = (.ok (), subscribed) →
    subscribed.BeginsRound exports entry begun →
    ((Ledger.importNow run module specifier registration).outcome world).1 = .error fault
  /-- A dynamic import that is polled again. -/
  poll : ∀ {world requested subscribed : World} {ref : ImportRef} {exports view : NamespaceRef}
    {made : World},
    (world.dynamicImport ref).isDeferred = true →
    (request run (world.dynamicImport ref).module (world.dynamicImport ref).specifier).outcome world =
      (.ok exports, requested) →
    requested.newSpace true = (view, made) →
    (subscribe (world.dynamicImport ref).module exports
      { consumers := some (Table.ofList [(everyName, .copyInto view)]), key := none
        spaces := [view] }).outcome made = (.ok (), subscribed) →
    (subscribed.holding ([.space view] ++ subscribed.held)).BeginsRound exports entry begun →
    ((Ledger.poll run ref).outcome world).1 = .error fault
  /-- A module that shows its values. -/
  propagateExports : ∀ {world : World} {module : ModuleRef},
    world.BeginsRound (world.module module).exports entry begun →
    ((Ledger.propagateExports run module).outcome world).1 = .error fault
  /-- A module whose body has run. -/
  evaluate : ∀ {world evaluated : World} {module : ModuleRef} {body : Effect Unit},
    body.outcome (world.claimExports module).2 = (.ok (), evaluated) →
    (evaluated.setLoaded module true).BeginsRound
      ((evaluated.setLoaded module true).module module).exports entry begun →
    ((Ledger.evaluate run module body).outcome world).1 = .error fault

/-- What becomes of a round that a provider ends. -/
structure Aborted (run : Runner) (entry : EntryRef) (first : List Turn) (row : String × Slot)
    (rest : List (String × Slot)) (fault : Fault) (world middle failed : World) : Prop where
  /-- The round ends with the provider's own error. -/
  round : (propagate run entry).outcome world = (.error fault, failed)
  /-- So it does when it is asked for by hand, as long as the entry's namespace exists. -/
  roundKept : (world.spaceOf? entry).isSome = true →
    (propagateKept run entry).outcome world = (.error fault, failed)
  /-- No consumer was called. -/
  calls : ∃ asked : List Callback, failed.calls = asked ++ world.calls ∧
    ∀ callback ∈ asked, callback.isConsumer = false
  /-- What batches have seen and written is the same. -/
  batches : failed.batches = world.batches
  /-- Of all entries only slots are different. -/
  entries : ∀ other,
    failed.entry other = { world.entry other with slots := (failed.entry other).slots }
  /-- These are slots of this entry that come before the one that failed. -/
  slots : ∀ other name, (other ≠ entry ∨ name ∉ first.map (·.name)) →
    (failed.entry other).slots.get? name = (world.entry other).slots.get? name
  /-- Any namespace but the entry's own is the same, unless a provider itself has changed it. -/
  spaces : ∀ ref, ref ≠ (world.entry entry).space → failed.space ref ≠ world.space ref →
    ChangedByProvider (·.space ref) run entry first row rest world middle failed
  /-- The entry's own namespace shows the same under any name but those of these slots, unless a provider
  itself has changed that. -/
  members : ∀ name, name ∉ first.map (·.name) →
    failed.member? (world.entry entry).space name ≠ world.member? (world.entry entry).space name →
    ChangedByProvider (·.member? (world.entry entry).space name) run entry first row rest world middle
      failed
  /-- Operations hand back the same error. -/
  handsBack : HandsBack run entry world fault

section

variable {α : Type}

/-- What the steps of turns leave alone was changed by a provider, if it is different in the end. -/
theorem FailsAt.changedByProvider (h : FailsAt run entry first row rest fault world middle failed)
    (view : World → α)
    (hwritten : ∀ turn ∈ first, ∀ before value,
      view (before.keepValue entry turn.name turn.slot.provider value) = view before ∧
        view (before.setMember (world.entry entry).space turn.name value) = view before)
    (hne : view failed ≠ view world) :
    ChangedByProvider view run entry first row rest world middle failed := by
  by_cases hlast : view failed = view middle
  · obtain ⟨done, step, later, before, next, hsteps, hdone, hstep, hchanged⟩ :=
      h.before.exists_change view (hlast ▸ hne)
    have hmem : step ∈ asking (row :: rest) [.space (world.entry entry).space] first :=
      hsteps ▸ List.mem_append_right done List.mem_cons_self
    obtain ⟨turn, hturn, ⟨-, _, rfl⟩ | ⟨value, -, ⟨-, rfl⟩ | rfl⟩⟩ := exists_turn_of_mem hmem
    · exact .asked hsteps hdone hstep hchanged
    · cases hstep
      exact absurd (hwritten turn hturn before value).1 hchanged
    · cases hstep
      exact absurd (hwritten turn hturn before value).2 hchanged
  · exact .failed hlast

end

/-- The round is over when a provider fails. -/
theorem FailsAt.outcome_propagate (h : FailsAt run entry first row rest fault world middle failed) :
    (propagate run entry).outcome world = (.error fault, failed) := by
  rw [propagate, Effect.outcome_bind,
    outcome_refresh_stopped h.slots h.before h.unkept h.fails]

/-! ### Operations -/

section

variable {begun : World} (hround : ((propagate run entry).outcome begun).1 = .error fault)

include hround

theorem propagateHeld_handsBack (hbegun : world.holding ([.entry entry] ++ world.held) = begun) :
    ((propagateHeld run entry).outcome world).1 = .error fault := by
  rw [propagateHeld, Effect.outcome_holding_eq, hbegun]
  exact hround

theorem propagateFrom_handsBack (h : world.BeginsRound space entry begun) :
    ((propagateFrom run space).outcome world).1 = .error fault := by
  rw [propagateFrom, Effect.outcome_bind_of_ok _ (Effect.outcome_get world)]
  simp only [h.entryOf]
  rw [Effect.outcome_holding_eq]
  exact propagateHeld_handsBack hround h.begun

theorem propagateExports_handsBack {module : ModuleRef}
    (h : world.BeginsRound (world.module module).exports entry begun) :
    ((propagateExports run module).outcome world).1 = .error fault := by
  rw [propagateExports, Effect.outcome_bind_of_ok _ (Effect.outcome_get world)]
  exact Effect.fst_outcome_bind_of_error _ (propagateFrom_handsBack hround h)

/-- Operations hand back the error of their round. -/
theorem handsBack_of_round : HandsBack run entry begun fault where
  provide {world module providers isConstant registered} hentry hregistered hloaded hbegun := by
    rw [provide, Effect.outcome_bind_of_ok _ (Effect.outcome_modifyGet _ world), hentry,
      Effect.outcome_bind_of_ok _ (Effect.outcome_modify _ _), hregistered,
      Effect.outcome_bind_of_ok _ (Effect.outcome_get _), if_pos hloaded]
    exact propagateHeld_handsBack hround hbegun
  importNow hrequest hsubscribe hbegins := by
    rw [importNow, Effect.outcome_bind_of_ok _ hrequest, Effect.outcome_bind_of_ok _ hsubscribe]
    exact propagateFrom_handsBack hround hbegins
  poll {world requested subscribed ref exports view made} hdeferred hrequest hnew hsubscribe
      hbegins := by
    have hmade : (modifyGet (·.newSpace true) : Effect NamespaceRef).outcome requested =
        (.ok view, made) := by
      rw [Effect.outcome_modifyGet, hnew]
    have hround : ((Effect.holding [.space view] (propagateFrom run exports)).outcome
        subscribed).1 = .error fault := by
      rw [Effect.outcome_holding_eq]
      exact propagateFrom_handsBack hround hbegins
    rw [poll, Effect.outcome_bind_of_ok _ (Effect.outcome_get world)]
    simp only [hdeferred, Bool.not_true, Bool.false_eq_true, if_false]
    refine Effect.fst_outcome_bind_of_error _ ?_
    rw [importNamespace, Effect.outcome_bind_of_ok _ hrequest, Effect.outcome_bind_of_ok _ hmade,
      Effect.outcome_bind_of_ok _ hsubscribe]
    exact Effect.fst_outcome_bind_of_error _ hround
  propagateExports h := propagateExports_handsBack hround h
  evaluate {world evaluated module body} hbody hbegins := by
    rw [evaluate, Effect.outcome_bind_of_ok _ (Effect.outcome_modifyGet _ world),
      Effect.outcome_bind_of_ok _ hbody, Effect.outcome_bind_of_ok _ (Effect.outcome_modify _ _)]
    exact propagateExports_handsBack hround hbegins

end

/-! ### The result -/

/-- **A provider that fails aborts its round cleanly.** In every round in which a provider is the
first to fail, with whatever slots before it and whatever batches: the round ends with the
provider's own error; no consumer was called; batches are the same, and so are entries but for what
slots before that one have kept; namespaces are the same, but for these slots' names in the entry's
own namespace and for what providers themselves have written; and the operations that begin rounds
hand back the same error. -/
theorem aborted_of_failsAt (h : FailsAt run entry first row rest fault world middle failed) :
    Aborted run entry first row rest fault world middle failed where
  round := h.outcome_propagate
  roundKept hspace := by
    obtain ⟨ref, hexists⟩ := Option.isSome_iff_exists.mp hspace
    rw [propagateKept, Effect.outcome_bind_of_ok _ (Effect.outcome_get world)]
    simp only [hexists]
    exact h.outcome_propagate
  calls := by
    refine ⟨.provider row.2.provider :: ((asking (row :: rest) [.space (world.entry entry).space]
      first).filterMap RoundStep.callback?).reverse, ?_, List.forall_mem_cons.mpr ⟨rfl, ?_⟩⟩
    · rw [h.spares.calls, h.before.calls, List.singleton_append, List.cons_append]
    · exact fun callback hmem => isConsumer_asking (List.mem_reverse.mp hmem)
  batches := h.spares.batches.trans h.before.batches_asking
  entries other := by
    rw [h.spares.entryAt]
    exact (h.before.entry_asking other).1
  slots other name hname := by
    rw [h.spares.entryAt]
    exact (h.before.entry_asking other).2 name hname
  spaces ref hother hchanged := by
    refine h.changedByProvider (·.space ref) (fun turn _ before value => ⟨rfl, ?_⟩) hchanged
    exact (before.space_updateSpace ..).trans (if_neg fun hsame => hother hsame.1)
  members name hnew hchanged := by
    refine h.changedByProvider (·.member? (world.entry entry).space name)
      (fun turn hturn before value => ⟨rfl, ?_⟩) hchanged
    rw [World.member?_setMember, if_neg]
    rintro ⟨-, -, rfl⟩
    exact hnew (List.mem_map_of_mem hturn)
  handsBack := handsBack_of_round (congrArg Prod.fst h.outcome_propagate)

/-- What a provider that always fails says. -/
def Source.failure? : Source → Option String
  | .failing message => some message
  | _ => none

/-- Asking a provider that always fails. -/
theorem outcome_ask_of_failure (run : Runner) (world : World) {provider : ProviderRef} {message : String}
    (h : (world.provider provider).source.failure? = some message) :
    (ask run provider).outcome world =
      (.error (.failed (.thrown message)), (world.noteCall provider).2) := by
  have hsource := source_noteCall world provider provider
  rw [ask, Effect.outcome_bind]
  simp only [Effect.outcome_modifyGet, Effect.outcome_bind, Effect.outcome_get, hsource]
  revert h
  cases (world.provider provider).source with
  | failing other =>
    intro h
    obtain rfl : other = message := Option.some.inj h
    rfl
  | value | binding | counted | listed | computed =>
    intro h
    cases h

/-- Where the providers before one that always fails are quiet, that one is the first to fail. -/
theorem failsAt_of_quiet (hrun : ∀ scope label world, (run scope label []).outcome world =
    (.ok (), world)) {slots : List (String × Slot)} {message : String}
    (hslots : slots ++ row :: rest = (world.entry entry).slots.rows)
    (hquiet : ∀ row ∈ slots, (world.provider row.2.provider).source.isQuiet = true)
    (hunkept : row.2.kept? = none)
    (hfailing : (world.provider row.2.provider).source.failure? = some message) :
    ∃ first middle failed, first.map Turn.row = slots ∧
      FailsAt run entry first row rest (.failed (.thrown message)) world middle failed := by
  obtain ⟨first, middle, hfirst, hbefore, hsource⟩ := exists_turns_of_isQuiet hrun (row :: rest)
    [.space (world.entry entry).space] hquiet
  refine ⟨first, middle, (middle.noteCall row.2.provider).2, hfirst, ?_, hbefore, hunkept, ?_,
    rfl, rfl, rfl⟩
  · rw [hfirst, hslots]
  · rw [Effect.outcome_holding_eq, outcome_ask_of_failure]
    · rfl
    · exact (congrArg Source.failure? (hsource row.2.provider)).trans hfailing

/-- A module has exported a variable and a constant and shown them; a namespace and a variable
follow it. Then the variable changes, and the module exports one more name whose provider fails, and
another one. -/
def faltering : Program :=
  [(Command.createModule "m" "m" true).line, (Command.createNamespace "q").line,
   (Command.createBinding "b" (some (.text "one"))).line,
   (Command.provide (some "m") [(.fixed "x", .binding "b")] false).line,
   (Command.provide (some "m") [(.fixed "y", .counted "y" none)] true).line,
   (Command.watch (some "m") (.exportsOf "m")
     { consumers := some [(.fixed "x", .assign "s"), (.fixed "*", .callback none [])]
       key := none, spaces := [.named "q"] }).line,
   (Command.propagate (some "m") .undefined).line, (Command.setBinding "b" (.text "two")).line,
   (Command.provide (some "m") [(.fixed "z", .failing "t"), (.fixed "w", .value .null)] false).line]

/-- The world after that. -/
def faltered : World :=
  (World.ofHost default).afterwards 4 faltering

/-- The result for that module: the new value of the variable is not shown to anyone. -/
theorem aborted_faltered :
    ∃ first row rest middle failed, first.map (·.name) = ["x", "y"] ∧
      FailsAt (runner 4) ⟨0⟩ first row rest (.failed (.thrown "t")) faltered middle failed ∧
      Aborted (runner 4) ⟨0⟩ first row rest (.failed (.thrown "t")) faltered middle failed := by
  have hlength : 0 < ((faltered.entry ⟨0⟩).slots.rows.drop 2).length := by decide +kernel
  obtain ⟨row, rest, hlater⟩ := List.exists_cons_of_length_pos hlength
  have hrow : ∀ row ∈ ((faltered.entry ⟨0⟩).slots.rows.drop 2).head?, row.2.kept?.isNone = true ∧
      (faltered.provider row.2.provider).source.failure? = some "t" := by decide +kernel
  obtain ⟨hunkept, hfailing⟩ := hrow row (by rw [hlater]; rfl)
  have hslots := List.take_append_drop 2 (faltered.entry ⟨0⟩).slots.rows
  rw [hlater] at hslots
  have hnothing (scope : Scope) (label : String) (world : World) :
      (runner 4 scope label []).outcome world = (.ok (), world) := rfl
  obtain ⟨first, middle, failed, hfirst, hfails⟩ := failsAt_of_quiet hnothing hslots
    (by decide +kernel) (Option.isNone_iff_eq_none.mp hunkept) hfailing
  refine ⟨first, _, _, middle, failed, ?_, hfails, aborted_of_failsAt hfails⟩
  have hnames : first.map (·.name) = (first.map Turn.row).map (·.1) := by
    rw [List.map_map]
    rfl
  rw [hnames, hfirst]
  decide +kernel

/-- A module exports a name whose provider writes into another namespace, and one whose provider
fails; a batch follows it with that namespace. -/
def meddling : Program :=
  [(Command.createModule "m" "m" true).line, (Command.createNamespace "q").line,
   (Command.provide (some "m")
     [(.fixed "a", .computed [(Command.setMember (.named "q") (.fixed "y") (.text "z")).line] .null),
      (.fixed "b", .failing "t")] false).line,
   (Command.watch (some "m") (.exportsOf "m")
     { consumers := some [(.fixed "a", .assign "v")], key := none, spaces := [.named "q"] }).line]

/-- The world after that. -/
def meddled : World :=
  (World.ofHost default).afterwards 4 meddling

/-- The turn of the first name. -/
def meddledTurn : Turn :=
  ⟨"a", ⟨⟨0⟩, false, none⟩, some .null⟩

/-- The world after that turn. -/
def meddledOnce : World :=
  (((meddled.noteCall ⟨0⟩).2.setMember ⟨1⟩ "y" (.text "z")).addEvent
    (.ran "getter" "" (.ok .done))).take ⟨0⟩ ⟨0⟩ meddledTurn.row .null

/-- A namespace of a batch is different after a round that a provider has ended, although no
provider has entered the ledger again: the one that was asked before the failure has itself written
there. -/
theorem namespaceOfBatch_written : ∃ row failed,
    FailsAt (runner 4) ⟨0⟩ [meddledTurn] row [] (.failed (.thrown "t")) meddled meddledOnce failed ∧
      (propagate (runner 4) ⟨0⟩).outcome meddled = (.error (.failed (.thrown "t")), failed) ∧
      ∃ batch ∈ (meddled.entry ⟨0⟩).batches, ∃ ref ∈ (meddled.batch batch).spaces,
        ref ≠ (meddled.entry ⟨0⟩).space ∧ meddled.member? ref "y" = none ∧
          failed.member? ref "y" = some (.text "z") := by
  have hasked (kept : List Holding) : (RoundStep.asked kept ⟨0⟩ (some .null)).Leads World.Spares
      (runner 4) ⟨0⟩ ⟨0⟩ meddled (((meddled.noteCall ⟨0⟩).2.setMember ⟨1⟩ "y" (.text "z")).addEvent
        (.ran "getter" "" (.ok .done))) := .asked rfl ⟨rfl, rfl, rfl⟩
  have hfails : FailsAt (runner 4) ⟨0⟩ [meddledTurn] ("b", ⟨⟨1⟩, false, none⟩) []
      (.failed (.thrown "t")) meddled meddledOnce (meddledOnce.noteCall ⟨1⟩).2 :=
    { slots := rfl
      before := (Performed.cons (hasked _) (.nil _)).append ((performed_written meddledTurn).mpr rfl)
      unkept := rfl
      fails := rfl
      spares := ⟨rfl, rfl, rfl⟩ }
  exact ⟨_, _, hfails, hfails.outcome_propagate, ⟨0⟩, by decide +kernel, ⟨1⟩, by decide +kernel,
    by decide +kernel, rfl, rfl⟩

end ModuleLinkage.Ledger
