import ModuleLinkage.Proofs.Ledger.Course.Scoping
import ModuleLinkage.Proofs.Ledger.Rounds.Evaluation

/-!
# Constant exports

A constant slot keeps the first value that its provider yields (`World.get?_keepValue`), and goes on
keeping it until its name is registered again (`Step.kept_or_registered`). A round that begins after
that does not ask the provider and gives that value and no other one, whatever callbacks do
meanwhile.

A round works with the slots that it found when it began. If a callback makes a slot keep a value
before the slot has had its turn in a round that is under way, this round asks the provider again
and gives what it yields then, although that is not kept (`oneValue_of_course`,
`roundUnderWay_differs`).
-/

set_option autoImplicit false

namespace ModuleLinkage.Ledger

variable {allowed : Command → Prop} {run : Runner} {entry : EntryRef} {world after : World}
  {turns : List Turn} {turn : Turn} {name : String} {slot : Slot} {value : Value}
  {stages : List World}

/-! ### Values that are kept -/

/-- What becomes of a slot when a value of a provider is there to be kept: the slot keeps it if it
has that provider and has kept nothing. -/
def Slot.keep (slot : Slot) (provider : ProviderRef) (value : Value) : Slot :=
  if slot.provider == provider && slot.cached.isNone then { slot with cached := some value } else slot

theorem Slot.keep_of_isSome (h : slot.cached.isSome = true) (provider : ProviderRef) (value : Value) :
    slot.keep provider value = slot := by
  rw [keep, Option.isNone_eq_false_iff.mpr h, Bool.and_false]
  rfl

theorem World.get?_keepValue (world : World) (entry : EntryRef) (name : String) (provider : ProviderRef)
    (value : Value) :
    ((world.keepValue entry name provider value).entry entry).slots.get? name =
      ((world.entry entry).slots.get? name).map (·.keep provider value) := by
  unfold World.keepValue
  rw [World.entry_updateEntry]
  split
  · cases hslot : (world.entry entry).slots.get? name with
    | none => exact hslot
    | some slot =>
      dsimp only [Option.map_some, Slot.keep]
      split
      · exact Table.get?_put_self ..
      · exact hslot
  · next hmissing =>
    rw [World.entry_of_size_le _ (Nat.le_of_not_lt fun hlt => hmissing ⟨rfl, hlt⟩)]
    rfl

/-- What a move does to the slots of an entry: it registers providers or keeps a value, or it leaves
them as they are. -/
theorem Move.slots_cases (h : Move allowed world after) (entry : EntryRef) :
    (after.entry entry).slots = (world.entry entry).slots ∨
      (∃ ref providers isConstant, after = world.addProviders ref providers isConstant) ∨
      ∃ ref name provider value, after = world.keepValue ref name provider value := by
  have hsame {after : World} (h : after.entries = world.entries) :
      (after.entry entry).slots = (world.entry entry).slots :=
    congrArg (fun entries => (Store.get entries entry.index).slots) h
  have hupdate (ref : EntryRef) {change : Entry → Entry}
      (hchange : ∀ record, (change record).slots = record.slots) :
      ((world.updateEntry ref change).entry entry).slots = (world.entry entry).slots :=
    Store.proj_get_update _ _ _ Entry.slots hchange
  cases h with
  | noted h =>
    rw [h]
    exact .inl (hsame rfl)
  | enable ref =>
    unfold World.enable
    split <;> exact .inl (hsame rfl)
  | entryFor space =>
    refine .inl ?_
    unfold World.entryFor
    split
    · rfl
    · have hadded : (world.newEntry space).2.entry entry =
          if entry.index = world.entries.size then ⟨space, none, false, .empty, []⟩
          else world.entry entry := Store.get_add _ _ _
      change ((world.newEntry space).2.entry entry).slots = _
      rw [hadded]
      split
      · next hnew =>
        rw [world.entry_of_size_le (Nat.le_of_eq hnew.symm)]
        rfl
      · rfl
  | settleOwner ref module =>
    unfold World.settleOwner
    split
    · exact .inl rfl
    · exact .inl (hupdate ref fun _ => rfl)
  | markLoaded ref => exact .inl (hupdate ref fun _ => rfl)
  | addProviders ref providers isConstant => exact .inr (.inl ⟨ref, providers, isConstant, rfl⟩)
  | keepValue ref name provider value => exact .inr (.inr ⟨ref, name, provider, value, rfl⟩)
  | addConsumers ref module consumers key spaces =>
    refine .inl ?_
    rw [(world.renewed_addConsumers ref module consumers key spaces).entries entry]
  | writeThrough batch name value => exact .inl (hsame (world.entries_writeThrough ..))
  | _ => exact .inl (hsame rfl)

/-- A slot that has kept a value stays as it is until its name is registered again. -/
theorem Step.kept_or_registered {past : List World} (hstep : Step allowed past world after)
    (hslot : (world.entry entry).slots.get? name = some slot) (hkept : slot.cached.isSome = true) :
    (after.entry entry).slots.get? name = some slot ∨
      ∃ providers isConstant, after = world.addProviders entry providers isConstant ∧
        name ∈ providers.names := by
  cases hstep with
  | moved hmove =>
    rcases hmove.slots_cases entry with hsame | ⟨ref, providers, isConstant, rfl⟩ |
      ⟨ref, other, provider, value, rfl⟩
    · exact .inl (hsame ▸ hslot)
    · by_cases hregistered : entry = ref ∧ name ∈ providers.names
      · obtain ⟨rfl, hname⟩ := hregistered
        exact .inr ⟨providers, isConstant, rfl, hname⟩
      · refine .inl ?_
        rw [World.addProviders, World.entry_updateEntry]
        split
        · next hentry =>
          obtain ⟨rfl, -⟩ := hentry
          refine (Table.get?_putAll_of_not_mem _ fun hmem => ?_).trans hslot
          rw [List.map_map] at hmem
          exact hregistered ⟨rfl, hmem⟩
        · exact hslot
    · refine .inl ?_
      rcases world.entry_keepValue ref other provider value entry with hsame | ⟨rfl, _, -, -, -, heq⟩
      · rw [hsame, hslot]
      · by_cases hname : name = other
        · subst hname
          rw [World.get?_keepValue, hslot, Option.map_some, Slot.keep_of_isSome hkept]
        · rw [heq]
          exact (Table.get?_put_of_ne _ _ hname).trans hslot
  | completed =>
    refine .inl (Eq.trans (congrArg (Table.get? · name) ?_) hslot)
    exact Store.proj_get_update _ _ _ Entry.slots fun _ => rfl

/-! ### Rounds, whatever callbacks do -/

/-- Callbacks may do anything. -/
def anything : Meanwhile :=
  fun _ _ _ => True

/-- How the slots of an entry are asked that a round has found in `world`: they have their turns one
after the other, up to the last one or to one whose provider fails. -/
inductive Refreshed (run : Runner) (entry : EntryRef) (world : World) :
    List Turn → Option (String × Slot) → Except Fault (List (String × Value)) × World → Prop
  | ended {turns : List Turn} {after : World}
      (hturns : turns.map Turn.row = (world.entry entry).slots.rows)
      (h : Performed anything run entry (world.entry entry).space
        (asking [] [.space (world.entry entry).space] turns) world after) :
      Refreshed run entry world turns none (.ok (world.taken entry turns), after)
  | stopped {turns : List Turn} {row : String × Slot} {rest : List (String × Slot)} {fault : Fault}
      {middle after : World}
      (hturns : turns.map Turn.row ++ row :: rest = (world.entry entry).slots.rows)
      (h : Performed anything run entry (world.entry entry).space
        (asking (row :: rest) [.space (world.entry entry).space] turns) world middle)
      (hunkept : row.2.kept? = none)
      (hfails : (Effect.holding
        (waiting row.2 rest (keptAfter [.space (world.entry entry).space] turns))
        (ask run row.2.provider)).outcome middle = (.error fault, after)) :
      Refreshed run entry world turns (some row) (.error fault, after)

theorem exists_refreshed (run : Runner) (entry : EntryRef) (world : World) :
    ∃ turns failing, Refreshed run entry world turns failing ((refresh run entry).outcome world) := by
  rcases exists_turns anything run entry (world.entry entry).space
      [.space (world.entry entry).space] (world.entry entry).slots.rows world with
    ⟨turns, after, hturns, hasked⟩ | ⟨turns, row, rest, middle, hturns, hhalts⟩
  · refine ⟨turns, none, ?_⟩
    rw [outcome_refresh hturns hasked]
    exact .ended hturns hasked
  · rcases houtcome : (Effect.holding
        (waiting row.2 rest (keptAfter [.space (world.entry entry).space] turns))
        (ask run row.2.provider)).outcome middle with ⟨fault | yielded, after⟩
    · refine ⟨turns, some row, ?_⟩
      rw [outcome_refresh_stopped hturns hhalts.performed hhalts.unkept houtcome]
      exact .stopped hturns hhalts.performed hhalts.unkept houtcome
    · exact absurd (.asked houtcome trivial) (hhalts.halts yielded after)

/-- What the deliveries of a round do in one step: they hold on to something else, or they write a
value of the round into the namespaces of a batch, or hand one to a consumer, whatever that does. -/
inductive Delivers (run : Runner) (values : List (String × Value)) : World → World → Prop
  | holding (world : World) (held : List Holding) : Delivers run values world (world.holding held)
  | mirrored {row : String × Value} (hrow : row ∈ values) (batch : BatchRef) (world : World) :
      Delivers run values world (world.writeThrough batch row.1 row.2)
  | called {row : String × Value} (hrow : row ∈ values) (batch : BatchRef) (slot : String)
      (consumer : Consumer) (world : World) :
      Delivers run values world
        ((consumer.receive run batch slot row.1 row.2).outcome (world.noteSeen batch slot row.1 row.2)).2

/-- Deliveries, one step after the other. -/
inductive Delivered (run : Runner) (values : List (String × Value)) : World → World → Prop
  | nil (world : World) : Delivered run values world world
  | cons {world middle after : World} (h : Delivers run values world middle)
      (hrest : Delivered run values middle after) : Delivered run values world after

section

variable {values : List (String × Value)}

theorem Delivered.trans {middle : World} (h : Delivered run values world middle)
    (h' : Delivered run values middle after) : Delivered run values world after := by
  induction h with
  | nil => exact h'
  | cons hstep _ ih => exact .cons hstep (ih h')

theorem Delivers.delivered (h : Delivers run values world after) : Delivered run values world after :=
  .cons h (.nil after)

theorem delivered_holding {α : Type} {things : List Holding} {action : Effect α}
    (h : Delivered run values (world.holding (things ++ world.held))
      (action.outcome (world.holding (things ++ world.held))).2) :
    Delivered run values world ((Effect.holding things action).outcome world).2 :=
  .cons (.holding world _) (h.trans (Delivers.holding _ world.held).delivered)

theorem delivered_deliverTo {row : String × Value} (hrow : row ∈ values) (batch : BatchRef)
    (slot : String) (consumer : Consumer) (world : World) :
    Delivered run values world
      ((deliverTo run batch row.1 row.2 slot consumer).outcome world).2 := by
  rw [deliverTo, Effect.outcome_bind]
  simp only [Effect.outcome_get]
  split
  · exact .nil world
  · split
    · exact .nil world
    · have hcalled : Delivered run values world _ :=
        (Delivers.called hrow batch slot consumer world).delivered
      rw [Effect.outcome_bind, Effect.outcome_modify]
      simp only [Effect.outcome_bind]
      rcases houtcome : (consumer.receive run batch slot row.1 row.2).outcome
        (world.noteSeen batch slot row.1 row.2) with ⟨fault | _, after⟩ <;>
        · rw [houtcome] at hcalled
          exact hcalled

theorem delivered_deliverToAll {row : String × Value} (hrow : row ∈ values) (batch : BatchRef)
    (concerned : List (String × Consumer)) (world : World) :
    Delivered run values world
      ((deliverToAll run batch row.1 row.2 concerned).outcome world).2 := by
  induction concerned generalizing world with
  | nil => exact .nil world
  | cons first rest ih =>
    have hfirst : Delivered run values world _ :=
      delivered_deliverTo hrow batch first.1 first.2 world
    rw [deliverToAll, Effect.outcome_bind]
    rcases houtcome : (deliverTo run batch row.1 row.2 first.1 first.2).outcome world with
      ⟨fault | goesOn, after⟩ <;> rw [houtcome] at hfirst
    · exact hfirst
    · cases goesOn with
      | false => exact hfirst
      | true => exact hfirst.trans (ih after)

theorem delivered_deliverValues (batch : BatchRef) {rows : List (String × Value)}
    (hrows : ∀ row ∈ rows, row ∈ values) (world : World) :
    Delivered run values world ((deliverValues run batch rows).outcome world).2 := by
  induction rows generalizing world with
  | nil => exact .nil world
  | cons row rest ih =>
    obtain ⟨hrow, hrest⟩ := List.forall_mem_cons.mp hrows
    have hdeliver : Delivered run values world ((deliver run batch row.1 row.2).outcome world).2 := by
      rw [deliver, Effect.outcome_bind]
      simp only [Effect.outcome_get]
      split
      · exact .nil world
      · rw [Effect.outcome_bind, Effect.outcome_modify]
        exact .cons (.mirrored hrow batch world) (delivered_deliverToAll hrow batch _ _)
    rw [deliverValues, Effect.outcome_bind]
    simp only [Effect.outcome_get]
    split
    · rw [Effect.outcome_bind]
      rcases houtcome : (deliver run batch row.1 row.2).outcome world with ⟨fault | _, after⟩ <;>
        rw [houtcome] at hdeliver
      · exact hdeliver
      · exact hdeliver.trans (ih hrest after)
    · exact .nil world

/-- Deliveries hand out the values of their round and no other ones. -/
theorem delivered_deliverToBatches (values : List (String × Value)) (batches : List BatchRef)
    (world : World) :
    Delivered run values world ((deliverToBatches run values batches).outcome world).2 := by
  induction batches generalizing world with
  | nil => exact .nil world
  | cons batch rest ih =>
    have hfirst : Delivered run values world ((Effect.holding ((batch :: rest).map .batch)
        (deliverValues run batch values)).outcome world).2 :=
      delivered_holding (delivered_deliverValues batch (fun _ => id) _)
    rw [deliverToBatches, Effect.outcome_bind]
    rcases houtcome : (Effect.holding ((batch :: rest).map .batch)
      (deliverValues run batch values)).outcome world with ⟨fault | _, after⟩ <;>
      rw [houtcome] at hfirst
    · exact hfirst
    · exact hfirst.trans (ih after)

/-- After the slots have been asked, a round delivers the values that they gave. -/
theorem delivered_propagate {refreshed : World}
    (h : (refresh run entry).outcome world = (.ok values, refreshed)) :
    Delivered run values refreshed ((propagate run entry).outcome world).2 := by
  rw [propagate, Effect.outcome_bind, h]
  dsimp only
  rw [Effect.outcome_bind, Effect.outcome_get]
  exact delivered_holding (delivered_deliverToBatches values _ _)

end

/-! ### Constant slots in a round -/

theorem mem_rows_of_get? {slots : Table Slot} (h : slots.get? name = some slot) :
    (name, slot) ∈ slots.rows := by
  obtain ⟨row, hrow, rfl⟩ := Option.map_eq_some_iff.mp h
  have hname := List.find?_some hrow
  obtain rfl : row.1 = name := eq_of_beq hname
  exact List.mem_of_find?_eq_some hrow

theorem eq_of_mem_rows {slots : Table Slot} (hnodup : slots.names.Nodup) {other : Slot}
    (h : (name, slot) ∈ slots.rows) (h' : (name, other) ∈ slots.rows) : slot = other :=
  congrArg Prod.snd (List.inj_on_of_nodup_map hnodup h h' rfl)

section

variable {failing : Option (String × Slot)} {outcome : Except Fault (List (String × Value)) × World}

namespace Refreshed

/-- A turn is the turn of a slot that the round has found. -/
theorem row_mem (h : Refreshed run entry world turns failing outcome) (hturn : turn ∈ turns) :
    turn.row ∈ (world.entry entry).slots.rows := by
  have hrow := List.mem_map_of_mem (f := Turn.row) hturn
  cases h with
  | ended hturns => exact hturns ▸ hrow
  | stopped hturns => exact hturns ▸ List.mem_append_left _ hrow

theorem failing_mem {row : String × Slot} (h : Refreshed run entry world turns (some row) outcome) :
    row ∈ (world.entry entry).slots.rows ∧ row.2.kept? = none := by
  cases h with
  | stopped hturns _ hunkept =>
    exact ⟨hturns ▸ List.mem_append_right _ List.mem_cons_self, hunkept⟩

/-- The turn of a name is the turn of the slot that is registered under it. -/
theorem slot_eq (h : Refreshed run entry world turns failing outcome)
    (hnodup : (world.entry entry).slots.names.Nodup) (hturn : turn ∈ turns)
    (hslot : (world.entry entry).slots.get? turn.name = some slot) : turn.slot = slot :=
  eq_of_mem_rows hnodup (h.row_mem hturn) (mem_rows_of_get? hslot)

/-- The values of a round are those that its turns give. -/
theorem mem_values_iff {values : List (String × Value)} {refreshed : World}
    (h : Refreshed run entry world turns failing (.ok values, refreshed))
    (hnodup : (world.entry entry).slots.names.Nodup)
    (hslot : (world.entry entry).slots.get? name = some slot) :
    ∃ turn ∈ turns, turn.row = (name, slot) ∧
      ∀ other, (name, other) ∈ values ↔ turn.given = some other := by
  cases h with
  | ended hturns =>
    have hmem := mem_rows_of_get? hslot
    obtain ⟨turn, hturn, hrow⟩ := List.mem_map.mp (hturns.symm ▸ hmem)
    have hself : world.exportsItself entry = false := by
      unfold World.exportsItself
      cases hrows : (world.entry entry).slots.rows with
      | nil =>
        rw [hrows] at hmem
        cases hmem
      | cons => rfl
    have hnames := nodup_names_of_turns hturns hnodup
    obtain rfl : turn.name = name := congrArg Prod.fst hrow
    refine ⟨turn, hturn, hrow, fun other => ?_⟩
    rw [World.taken, hself, if_neg Bool.false_ne_true, List.mem_filterMap]
    constructor
    · rintro ⟨found, hfound, hvalue⟩
      obtain ⟨value, hgiven, heq⟩ := Option.map_eq_some_iff.mp hvalue
      obtain rfl : value = other := congrArg Prod.snd heq
      rwa [← List.inj_on_of_nodup_map hnames hfound hturn (congrArg Prod.fst heq)]
    · intro hgiven
      exact ⟨turn, hturn, by rw [Turn.value?, hgiven]; rfl⟩

end Refreshed

end

namespace Turn

/-- The turn of a constant slot that has kept a value: the provider is not asked, and the value is
written. -/
structure Repeats (turn : Turn) (value : Value) : Prop where
  asked : ∀ held, turn.asked held = []
  written : turn.written = [.kept turn.name turn.slot.provider value, .stored turn.name value]

/-- The turn of a constant slot that has kept nothing: the provider is asked, and what it yields is
there to be kept and is written. -/
structure AsksOnce (turn : Turn) : Prop where
  asked : ∀ held, turn.asked held = [.asked held turn.slot.provider turn.yielded]
  written : turn.written = turn.yielded.toList.flatMap fun value =>
    [.kept turn.name turn.slot.provider value, .stored turn.name value]

theorem given_of_kept (h : turn.slot.kept? = some value) : turn.given = some value := by
  rw [given, h]
  rfl

theorem given_of_unkept (h : turn.slot.kept? = none) : turn.given = turn.yielded := by
  rw [given, h]
  rfl

theorem repeats_of_kept (h : turn.slot.kept? = some value) : turn.Repeats value := by
  have hconstant : turn.slot.isConstant = true := by
    by_contra hnot
    rw [Slot.kept?, if_neg hnot] at h
    cases h
  constructor
  · intro held
    rw [Turn.asked, h]
  · rw [Turn.written, given_of_kept h]
    dsimp only
    rw [if_pos hconstant]
    rfl

theorem asksOnce_of_unkept (hconstant : turn.slot.isConstant = true) (h : turn.slot.kept? = none) :
    turn.AsksOnce := by
  constructor
  · intro held
    rw [Turn.asked, h]
  · rw [Turn.written, given_of_unkept h]
    cases turn.yielded with
    | none => rfl
    | some value =>
      dsimp only
      rw [if_pos hconstant]
      rfl

end Turn

/-! ### The result -/

/-- What becomes of the values of constant slots in the worlds that a run passes. -/
structure OneValue (stages : List World) : Prop where
  /-- A slot that has kept a value stays as it is until its name is registered again. -/
  lasting : ∀ {earlier later : World} {before between : List World},
    later :: between <:+ stages → earlier :: before <:+ later :: between →
    ∀ entry name slot, (earlier.entry entry).slots.get? name = some slot → slot.cached.isSome = true →
      (later.entry entry).slots.get? name ≠ some slot →
      ∃ next world rest providers isConstant, next :: world :: rest <:+ later :: between ∧
        earlier :: before <:+ world :: rest ∧
        next = world.addProviders entry providers isConstant ∧ name ∈ providers.names
  /-- A value that is there to be kept is kept if it is the first one of that provider. -/
  keeps : ∀ (world : World) (entry : EntryRef) (name : String) (provider : ProviderRef) (value : Value),
    ((world.keepValue entry name provider value).entry entry).slots.get? name =
      ((world.entry entry).slots.get? name).map (·.keep provider value)
  /-- A round that begins while a constant slot has kept a value, whatever callbacks do: it does not
  ask the provider in the turn of this slot, and that value is the only one that it gives under the
  name. -/
  settled : ∀ world ∈ stages, ∀ (run : Runner) (entry : EntryRef) {name : String} {slot : Slot}
    {value : Value}, (world.entry entry).slots.get? name = some slot → slot.kept? = some value →
    ∃ turns failing, Refreshed run entry world turns failing ((refresh run entry).outcome world) ∧
      (∀ turn ∈ turns, turn.name = name → turn.slot = slot ∧ turn.Repeats value) ∧
      (∀ row ∈ failing, row.1 ≠ name) ∧
      ∀ values refreshed, (refresh run entry).outcome world = (.ok values, refreshed) →
        ∀ other, (name, other) ∈ values ↔ other = value
  /-- A round that begins before: it asks the provider once, even if the slot has come to keep a value
  meanwhile, and gives what the provider yields. -/
  underWay : ∀ world ∈ stages, ∀ (run : Runner) (entry : EntryRef) {name : String} {slot : Slot},
    (world.entry entry).slots.get? name = some slot → slot.isConstant = true → slot.kept? = none →
    ∃ turns failing, Refreshed run entry world turns failing ((refresh run entry).outcome world) ∧
      (∀ turn ∈ turns, turn.name = name → turn.slot = slot ∧ turn.AsksOnce) ∧
      ∀ values refreshed, (refresh run entry).outcome world = (.ok values, refreshed) →
        ∃ turn ∈ turns, turn.name = name ∧ ∀ other, (name, other) ∈ values ↔ turn.yielded = some other
  /-- What a round hands out and writes into the namespaces of batches are the values that it gives. -/
  delivers : ∀ (run : Runner) (entry : EntryRef) {world refreshed : World}
    {values : List (String × Value)}, (refresh run entry).outcome world = (.ok values, refreshed) →
    Delivered run values refreshed ((propagate run entry).outcome world).2
  /-- Whatever runs next goes on with the run. -/
  continues : ∀ world ∈ stages, world.Continues fun _ => True

/-- **When a constant export has one value.** In every run, whatever its programs and callbacks do:
what a constant slot has kept stays until its name is registered again; every round that begins
meanwhile gives exactly that value under the name and does not ask for it; and a round that begins
before asks the provider once and gives what that yields, which is kept only if nothing has been
kept meanwhile. -/
theorem oneValue_of_course {host : Host} (h : Course (fun _ => True) (World.ofHost host) stages) :
    OneValue stages := by
  have hnodup {world : World} (hworld : world ∈ stages) (entry : EntryRef) :
      (world.entry entry).slots.names.Nodup :=
    (h.invariant (inOrder_ofHost host) Step.inOrder world hworld).slots entry
  constructor
  · intro earlier later before between hlater hearlier entry name slot hslot hkept hlost
    obtain ⟨next, world, rest, hnext, hbefore, hworld, hgone⟩ :=
      exists_loss (fun world => (world.entry entry).slots.get? name = some slot) hearlier hslot hlost
    obtain ⟨providers, isConstant, heq, hname⟩ :=
      ((h.step_of_suffix (hnext.trans hlater)).kept_or_registered hworld hkept).resolve_left hgone
    exact ⟨next, world, rest, providers, isConstant, hnext, hbefore, heq, hname⟩
  · exact World.get?_keepValue
  · intro world hworld run entry name slot value hslot hkept
    obtain ⟨turns, failing, hrefreshed⟩ := exists_refreshed run entry world
    have hslots := hnodup hworld entry
    refine ⟨turns, failing, hrefreshed, fun turn hturn hname => ?_, ?_, ?_⟩
    · subst hname
      obtain rfl := hrefreshed.slot_eq hslots hturn hslot
      exact ⟨rfl, Turn.repeats_of_kept hkept⟩
    · rintro ⟨rowName, rowSlot⟩ hrow rfl
      cases Option.mem_def.mp hrow
      obtain ⟨hmem, hunkept⟩ := hrefreshed.failing_mem
      rw [eq_of_mem_rows hslots hmem (mem_rows_of_get? hslot), hkept] at hunkept
      cases hunkept
    · intro values refreshed houtcome other
      rw [houtcome] at hrefreshed
      obtain ⟨turn, -, hrow, hgives⟩ := hrefreshed.mem_values_iff hslots hslot
      obtain rfl : turn.slot = slot := congrArg Prod.snd hrow
      rw [hgives, Turn.given_of_kept hkept, Option.some_inj, eq_comm]
  · intro world hworld run entry name slot hslot hconstant hunkept
    obtain ⟨turns, failing, hrefreshed⟩ := exists_refreshed run entry world
    have hslots := hnodup hworld entry
    refine ⟨turns, failing, hrefreshed, fun turn hturn hname => ?_, ?_⟩
    · subst hname
      obtain rfl := hrefreshed.slot_eq hslots hturn hslot
      exact ⟨rfl, Turn.asksOnce_of_unkept hconstant hunkept⟩
    · intro values refreshed houtcome
      rw [houtcome] at hrefreshed
      obtain ⟨turn, hturn, hrow, hgives⟩ := hrefreshed.mem_values_iff hslots hslot
      obtain rfl : turn.slot = slot := congrArg Prod.snd hrow
      refine ⟨turn, hturn, congrArg Prod.fst hrow, fun other => ?_⟩
      rw [hgives, Turn.given_of_unkept hunkept]
  · exact fun run entry _ _ _ houtcome => delivered_propagate houtcome
  · intro world hworld
    exact (h.invariant (World.confined_true _) (fun _ _ => World.confined_true _) world
      hworld).continues

/-- A module exports a constant, which would yield another value the second time, and shows it to a
consumer. -/
def exposing : Program :=
  [(Command.createModule "m" "m" true).line,
   (Command.provide (some "m")
     [(.fixed "c", .listed [.value (.text "one"), .value (.text "two")])] true).line,
   (Command.watch (some "m") (.exportsOf "m")
     { consumers := some [(.fixed "c", .assign "s")], key := none, spaces := [] }).line,
   (Command.propagate (some "m") .undefined).line]

/-- The world after that. -/
def exposed : World :=
  (World.ofHost default).afterwards 4 exposing

/-- The result for that module: the constant has kept its first value, and the next round gives it
again. -/
theorem oneValue_exposed : ∃ stages,
    Course (fun _ => True) (World.ofHost default) (exposed :: stages) ∧ OneValue (exposed :: stages) ∧
    ((exposed.entry ⟨0⟩).slots.get? "c").bind Slot.kept? = some (.text "one") ∧
    ∀ values refreshed, (refresh (runner 4) ⟨0⟩).outcome exposed = (.ok values, refreshed) →
      ∀ other, ("c", other) ∈ values ↔ other = .text "one" := by
  have hstart : (World.ofHost default).Confined fun _ => True := World.confined_true _
  have hgoesOn : World.GoesOn (fun _ => True) (World.ofHost default) exposed :=
    hstart.continues.program 4 (Program.confined_true _)
  obtain ⟨stages, hstages, -⟩ := hgoesOn _ [] .start
  have hone := oneValue_of_course hstages
  have hkept : ((exposed.entry ⟨0⟩).slots.get? "c").bind Slot.kept? = some (.text "one") :=
    Outlet.eq_some_of_same (by decide +kernel)
  obtain ⟨slot, hslot, hvalue⟩ := Option.bind_eq_some_iff.mp hkept
  obtain ⟨_, _, -, -, -, hvalues⟩ :=
    hone.settled exposed List.mem_cons_self (runner 4) ⟨0⟩ hslot hvalue
  exact ⟨stages, hstages, hone, hkept, hvalues⟩

/-- What the host serves here: a module whose body shows the values of another one. -/
def nesting : Host :=
  { bodies := Table.ofList [("z", [(Command.propagate (some "m") .undefined).line])]
    aliases := .empty, failures := .empty }

/-- A module exports a name whose provider imports that module, and behind it a constant, which
would yield another value the second time. -/
def crossing : Program :=
  [(Command.createModule "m" "m" true).line,
   (Command.provide (some "m")
     [(.fixed "a", .computed [(Command.importNow (some "m") "z"
       { consumers := none, key := none, spaces := [] }).line] .null)] false).line,
   (Command.provide (some "m")
     [(.fixed "c", .listed [.value (.text "one"), .value (.text "two")])] true).line,
   (Command.watch (some "m") (.exportsOf "m")
     { consumers := some [(.fixed "c", .assign "s")], key := none, spaces := [] }).line]

/-- The world after that. -/
def crossed : World :=
  (World.ofHost nesting).afterwards 8 crossing

/-- A round that is under way when the first value of a constant comes to be kept asks the provider once
more and gives the second one: in the end this one is shown and was handed to the consumer last, and the
first one is kept. -/
theorem roundUnderWay_differs :
    ((propagate (runner 8) ⟨0⟩).outcome crossed).1 = .ok () ∧
      ((((propagate (runner 8) ⟨0⟩).outcome crossed).2.entry ⟨0⟩).slots.get? "c").bind Slot.kept? =
        some (.text "one") ∧
      ((propagate (runner 8) ⟨0⟩).outcome crossed).2.member? ⟨0⟩ "c" = some (.text "two") ∧
      ((propagate (runner 8) ⟨0⟩).outcome crossed).2.seen? ⟨0⟩ "c" "c" = some (.text "two") ∧
      crossed.calls.countP (Callback.asks ⟨1⟩) = 0 ∧
      ((propagate (runner 8) ⟨0⟩).outcome crossed).2.calls.countP (Callback.asks ⟨1⟩) = 2 :=
  ⟨eq_ok_of_isOk (by decide +kernel), Outlet.eq_some_of_same (by decide +kernel),
    Outlet.eq_some_of_same (by decide +kernel), Outlet.eq_some_of_same (by decide +kernel),
    by decide +kernel, by decide +kernel⟩

end ModuleLinkage.Ledger
