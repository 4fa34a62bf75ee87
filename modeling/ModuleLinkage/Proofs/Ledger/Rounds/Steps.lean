import ModuleLinkage.Proofs.Ledger.Replacement.History

/-!
# The steps of a round

A round is a list of steps (`RoundStep`): a provider is asked, the value of a constant slot is kept,
a value is written into the entry's namespace or into the namespaces of a batch, a consumer is
called. What a step does to a world is fixed but for the callback in it (`RoundStep.Leads`), and a
list of steps is performed from one world to another one if each step leads on from where the one
before has led (`Performed`). How far callbacks may go meanwhile is a parameter, which is left open
where callbacks may do anything, and is `World.Spares` where they do not enter the ledger again.

The first part of a round asks the slots of the entry in turn. With what each slot yields (`Turn`)
its steps are fixed (`asking`). Whatever callbacks do, the round performs these steps up to the
first provider that fails, or else all of them (`exists_turns`), and once some of them are performed
it goes on with the slots that are left (`outcome_refreshSlots_append`).
-/

set_option autoImplicit false

namespace ModuleLinkage.Ledger

/-! ### Steps -/

/-- What a round does in one step. While a callback runs, `kept` is held on to. -/
inductive RoundStep where
  /-- A provider is asked and yields something. -/
  | asked (kept : List Holding) (provider : ProviderRef) (yielded : Option Value)
  /-- The value of a constant slot is kept, if none was kept before. -/
  | kept (name : String) (provider : ProviderRef) (value : Value)
  /-- A value is written into the namespace of the entry. -/
  | stored (name : String) (value : Value)
  /-- A value is written into a namespace of a batch. -/
  | mirrored (space : NamespaceRef) (name : String) (value : Value)
  /-- A batch notes a name that it has written into its namespaces. -/
  | signed (batch : BatchRef) (name : String)
  /-- The consumer called `slot` of a batch receives a value, which the batch notes as seen. -/
  | called (kept : List Holding) (batch : BatchRef) (slot : String) (consumer : Consumer)
      (name : String) (value : Value)

/-- The callback that a step calls. -/
def RoundStep.callback? : RoundStep → Option Callback
  | asked _ provider _ => some (.provider provider)
  | called _ batch slot _ name value => some (.consumer batch slot name value)
  | _ => none

/-- The world with something else held on to. -/
def World.holding (world : World) (held : List Holding) : World :=
  { world with held }

@[simp] theorem World.held_holding (world : World) (held : List Holding) :
    (world.holding held).held = held := rfl

@[simp] theorem World.holding_holding (world : World) (first second : List Holding) :
    (world.holding first).holding second = world.holding second := rfl

/-- What is held on to does not matter to what is written. -/
theorem World.writeThrough_holding (world : World) (held : List Holding) (ref : BatchRef) (name : String)
    (value : Value) :
    (world.holding held).writeThrough ref name value =
      (world.writeThrough ref name value).holding held := by
  have hfold (spaces : List NamespaceRef) (before : World) :
      spaces.foldl (fun world space => world.setMember space name value) (before.holding held) =
        (spaces.foldl (fun world space => world.setMember space name value) before).holding held := by
    induction spaces generalizing before with
    | nil => rfl
    | cons space rest ih => exact ih (before.setMember space name value)
  have hbatch : (world.holding held).batch ref = world.batch ref := rfl
  unfold writeThrough
  rw [hbatch]
  cases (world.batch ref).spaces with
  | nil => rfl
  | cons space rest =>
    simp only [hfold]
    rfl

theorem World.held_writeThrough (world : World) (ref : BatchRef) (name : String) (value : Value) :
    (world.writeThrough ref name value).held = world.held := by
  have h := congrArg World.held (world.writeThrough_holding world.held ref name value)
  exact h

theorem World.holding_eq_self {world : World} {held : List Holding} (h : world.held = held) :
    world.holding held = world := by
  subst h
  rfl

/-- How far callbacks may go: from the world in which the first of `own` is about to be called to
the one in which it has returned. -/
abbrev Meanwhile : Type :=
  List Callback → World → World → Prop

/-- A callback has not entered the ledger again: entries and batches are as they were, and no other
callback was called. -/
structure World.Spares (own : List Callback) (before after : World) : Prop where
  entries : after.entries = before.entries
  batches : after.batches = before.batches
  calls : after.calls = own ++ before.calls

section

variable (meanwhile : Meanwhile) (run : Runner) (entry : EntryRef) (space : NamespaceRef)

/-- Where a step leads in a round over an entry with a namespace. -/
inductive RoundStep.Leads : RoundStep → World → World → Prop
  | asked {kept : List Holding} {provider : ProviderRef} {yielded : Option Value} {world after : World}
      (h : (Effect.holding kept (ask run provider)).outcome world = (.ok yielded, after))
      (hmeanwhile : meanwhile [.provider provider] world after) :
      Leads (.asked kept provider yielded) world after
  | kept (name : String) (provider : ProviderRef) (value : Value) (world : World) :
      Leads (.kept name provider value) world (world.keepValue entry name provider value)
  | stored (name : String) (value : Value) (world : World) :
      Leads (.stored name value) world (world.setMember space name value)
  | mirrored (space : NamespaceRef) (name : String) (value : Value) (world : World) :
      Leads (.mirrored space name value) world (world.setMember space name value)
  | signed (batch : BatchRef) (name : String) (world : World) :
      Leads (.signed batch name) world
        (world.updateBatch batch fun record => { record with written := record.written.insert name })
  | called {kept : List Holding} {batch : BatchRef} {slot : String} {consumer : Consumer}
      {name : String} {value : Value} {world after : World}
      (h : (consumer.receive run batch slot name value).outcome
        ((world.noteSeen batch slot name value).holding (kept ++ world.held)) =
          (.ok (), after.holding (kept ++ world.held)))
      (hheld : after.held = world.held)
      (hmeanwhile : meanwhile [.consumer batch slot name value]
        (world.noteSeen batch slot name value) after) :
      Leads (.called kept batch slot consumer name value) world after

/-- Steps that are performed one after the other lead from one world to another one. -/
inductive Performed : List RoundStep → World → World → Prop
  | nil (world : World) : Performed [] world world
  | cons {step : RoundStep} {rest : List RoundStep} {world middle after : World}
      (h : step.Leads meanwhile run entry space world middle) (hrest : Performed rest middle after) :
      Performed (step :: rest) world after

end

variable {meanwhile : Meanwhile} {run : Runner} {entry : EntryRef} {space : NamespaceRef}
  {step : RoundStep} {steps first second : List RoundStep} {world middle after : World}

namespace Performed

theorem append (h : Performed meanwhile run entry space first world middle)
    (h' : Performed meanwhile run entry space second middle after) :
    Performed meanwhile run entry space (first ++ second) world after := by
  induction h with
  | nil => exact h'
  | cons hstep _ ih => exact .cons hstep (ih h')

theorem exists_of_append
    (h : Performed meanwhile run entry space (first ++ second) world after) :
    ∃ middle, Performed meanwhile run entry space first world middle ∧
      Performed meanwhile run entry space second middle after := by
  induction first generalizing world with
  | nil => exact ⟨world, .nil world, h⟩
  | cons step rest ih =>
    cases h with
    | cons hstep hrest =>
      obtain ⟨middle, hfirst, hsecond⟩ := ih hrest
      exact ⟨middle, .cons hstep hfirst, hsecond⟩

/-- What each step keeps is kept by all of them. -/
theorem invariant (h : Performed meanwhile run entry space steps world after) (holds : World → Prop)
    (hworld : holds world)
    (hstep : ∀ step ∈ steps, ∀ before next, step.Leads meanwhile run entry space before next →
      holds before → holds next) : holds after := by
  induction h with
  | nil => exact hworld
  | @cons step rest world middle after hfirst _ ih =>
    refine ih (hstep step List.mem_cons_self world middle hfirst hworld) fun other hother => ?_
    exact hstep other (List.mem_cons_of_mem _ hother)

end Performed

/-- A step gives up in the end what it held on to. -/
theorem RoundStep.Leads.held (h : step.Leads meanwhile run entry space world after) :
    after.held = world.held := by
  cases h with
  | asked h => exact (congrArg (·.2.held) h).symm
  | kept | stored | mirrored | signed => rfl
  | called _ hheld => exact hheld

theorem Performed.held (h : Performed meanwhile run entry space steps world after) :
    after.held = world.held :=
  h.invariant (fun after => after.held = world.held) rfl fun _ _ _ _ hstep hheld =>
    hstep.held.trans hheld

/-! ### Asking the slots -/

theorem Effect.outcome_holding_eq {α : Type} (things : List Holding) (action : Effect α)
    (world : World) :
    (holding things action).outcome world =
      (action.outcome (world.holding (things ++ world.held))).map id (·.holding world.held) := rfl

/-- What is held on to in two goes may be held on to in one. -/
theorem Effect.outcome_holding_kept {α : Type} (things kept : List Holding) (action : Effect α)
    (world : World) :
    (holding things action).outcome (world.holding (kept ++ world.held)) =
      ((holding (things ++ kept) action).outcome world).map id
        (·.holding (kept ++ world.held)) := by
  rw [outcome_holding_eq, outcome_holding_eq, List.append_assoc]
  rfl

/-- What a slot gives without being asked: the value kept of a constant one. -/
def Slot.kept? (slot : Slot) : Option Value :=
  if slot.isConstant then slot.cached else none

theorem Slot.value?_eq (slot : Slot) (run : Runner) :
    slot.value? run = match slot.kept? with
      | some value => pure (some value)
      | none => ask run slot.provider := by
  obtain ⟨provider, isConstant, cached⟩ := slot
  cases isConstant <;> cases cached <;> rfl

/-- The turn of a slot in a round: what its provider yields, if it is asked. -/
structure Turn where
  name : String
  slot : Slot
  yielded : Option Value

namespace Turn

def row (turn : Turn) : String × Slot :=
  (turn.name, turn.slot)

/-- What the slot gives. -/
def given (turn : Turn) : Option Value :=
  turn.slot.kept?.or turn.yielded

/-- The value of the round under the slot's name. -/
def value? (turn : Turn) : Option (String × Value) :=
  turn.given.map (turn.name, ·)

end Turn

/-- What a slot gives is kept, if the slot is constant, and written into the namespace. -/
def World.take (world : World) (entry : EntryRef) (space : NamespaceRef) (row : String × Slot)
    (value : Value) : World :=
  (if row.2.isConstant then world.keepValue entry row.1 row.2.provider value else world).setMember
    space row.1 value

namespace Turn

/-- A slot that has kept a value is not asked. -/
def asked (turn : Turn) (kept : List Holding) : List RoundStep :=
  match turn.slot.kept? with
  | some _ => []
  | none => [.asked kept turn.slot.provider turn.yielded]

/-- What the slot gives is kept, if the slot is constant, and written into the namespace. -/
def written (turn : Turn) : List RoundStep :=
  match turn.given with
  | some value =>
    (if turn.slot.isConstant then [.kept turn.name turn.slot.provider value] else []) ++
      [.stored turn.name value]
  | none => []

end Turn

/-- What is held on to after some slots had their turns, besides `kept`: the values that they gave. -/
def keptAfter (kept : List Holding) : List Turn → List Holding
  | [] => kept
  | turn :: rest => keptAfter (turn.given.toList.flatMap Value.holdings ++ kept) rest

/-- What is held on to while a slot is asked: the slot, the slots still to come, and `kept`. -/
def waiting (slot : Slot) (later : List (String × Slot)) (kept : List Holding) : List Holding :=
  slot.holdings ++ slotHoldings later ++ kept

/-- The steps of the turns of some slots, with the slots `later` still to come. -/
def asking (later : List (String × Slot)) (kept : List Holding) : List Turn → List RoundStep
  | [] => []
  | turn :: rest =>
    turn.asked (waiting turn.slot (rest.map Turn.row ++ later) kept) ++ turn.written ++
      asking later (turn.given.toList.flatMap Value.holdings ++ kept) rest

theorem asking_append (later : List (String × Slot)) (kept : List Holding) (first second : List Turn) :
    asking later kept (first ++ second) =
      asking (second.map Turn.row ++ later) kept first ++
        asking later (keptAfter kept first) second := by
  induction first generalizing kept with
  | nil => rfl
  | cons turn rest ih =>
    simp only [List.cons_append, asking, keptAfter, List.map_append, List.append_assoc, ih]

/-- What a step of a turn is: its provider is asked, if the slot has kept nothing, or what the slot
gives is kept or written. -/
structure RoundStep.BelongsTo (step : RoundStep) (turn : Turn) : Prop where
  cases : (turn.slot.kept? = none ∧ ∃ kept, step = .asked kept turn.slot.provider turn.yielded) ∨
    ∃ value, turn.given = some value ∧
      ((turn.slot.isConstant = true ∧ step = .kept turn.name turn.slot.provider value) ∨
        step = .stored turn.name value)

theorem exists_turn_of_mem {step : RoundStep} {later : List (String × Slot)} {kept : List Holding}
    {turns : List Turn} (h : step ∈ asking later kept turns) :
    ∃ turn ∈ turns, step.BelongsTo turn := by
  induction turns generalizing kept with
  | nil => cases h
  | cons turn rest ih =>
    rcases List.mem_append.mp h with h | h
    · refine ⟨turn, List.mem_cons_self, ⟨?_⟩⟩
      rcases List.mem_append.mp h with h | h
      · unfold Turn.asked at h
        cases hkept : turn.slot.kept? with
        | some value =>
          rw [hkept] at h
          cases h
        | none =>
          rw [hkept] at h
          exact .inl ⟨rfl, _, List.mem_singleton.mp h⟩
      · unfold Turn.written at h
        cases hgiven : turn.given with
        | none =>
          rw [hgiven] at h
          cases h
        | some value =>
          rw [hgiven] at h
          refine .inr ⟨value, rfl, ?_⟩
          rcases List.mem_append.mp h with h | h
          · split at h
            · next hconstant => exact .inl ⟨hconstant, List.mem_singleton.mp h⟩
            · cases h
          · exact .inr (List.mem_singleton.mp h)
    · obtain ⟨other, hother, hbelongs⟩ := ih h
      exact ⟨other, List.mem_cons_of_mem _ hother, hbelongs⟩

/-- The provider of a slot that has kept nothing is asked. -/
theorem exists_asked_of_mem (later : List (String × Slot)) (kept : List Holding) {turns : List Turn}
    {turn : Turn} (h : turn ∈ turns) (hunkept : turn.slot.kept? = none) :
    ∃ held, .asked held turn.slot.provider turn.yielded ∈ asking later kept turns := by
  induction turns generalizing kept with
  | nil => cases h
  | cons first rest ih =>
    rcases List.mem_cons.mp h with rfl | h
    · refine ⟨waiting turn.slot (rest.map Turn.row ++ later) kept, ?_⟩
      rw [asking, Turn.asked, hunkept]
      exact List.mem_cons_self
    · obtain ⟨held, hmem⟩ := ih (first.given.toList.flatMap Value.holdings ++ kept) h
      exact ⟨held, List.mem_append_right _ hmem⟩

/-- A turn writes what its slot gives. -/
theorem performed_written (turn : Turn) :
    Performed meanwhile run entry space turn.written world after ↔
      after = match turn.given with
        | some value => world.take entry space turn.row value
        | none => world := by
  unfold Turn.written World.take
  cases turn.given with
  | none =>
    refine ⟨fun h => ?_, fun h => h ▸ .nil world⟩
    cases h
    rfl
  | some value =>
    by_cases hconstant : turn.slot.isConstant = true
    · simp only [hconstant, Turn.row, if_true]
      refine ⟨fun h => ?_, fun h => h ▸ .cons (.kept ..) (.cons (.stored ..) (.nil _))⟩
      obtain ⟨_, ⟨⟩ | ⟨⟨⟩, ⟨⟩⟩, ⟨⟩ | ⟨⟨⟩, ⟨⟩⟩⟩ := h.exists_of_append
      rfl
    · simp only [hconstant, Turn.row, Bool.false_eq_true, if_false]
      refine ⟨fun h => ?_, fun h => h ▸ .cons (.stored ..) (.nil _)⟩
      obtain _ | ⟨⟨⟩, ⟨⟩⟩ := h
      rfl

/-- Whether its provider is asked or not, a slot gives what its turn says. -/
theorem outcome_turn {turn : Turn} {later : List (String × Slot)} {kept : List Holding}
    (h : Performed meanwhile run entry space (turn.asked (waiting turn.slot later kept)) world after) :
    (Effect.holding (turn.slot.holdings ++ slotHoldings later) (turn.slot.value? run)).outcome
        (world.holding (kept ++ world.held)) =
      (.ok turn.given, after.holding (kept ++ world.held)) := by
  rw [Slot.value?_eq]
  unfold Turn.asked waiting at h
  unfold Turn.given
  cases hkept : turn.slot.kept? with
  | some value =>
    rw [hkept] at h
    cases h
    rfl
  | none =>
    rw [hkept] at h
    obtain _ | ⟨⟨hask, -⟩, ⟨⟩⟩ := h
    rw [Effect.outcome_holding_kept, hask]
    rfl

/-- The turn of the first slot, and then those of the others. -/
theorem outcome_refreshSlots_cons (run : Runner) (entry : EntryRef) (space : NamespaceRef)
    (row : String × Slot) (rest : List (String × Slot)) (world : World) :
    (refreshSlots run entry space (row :: rest)).outcome world =
      match (Effect.holding (row.2.holdings ++ slotHoldings rest) (row.2.value? run)).outcome world with
      | (.error fault, asked) => (.error fault, asked)
      | (.ok none, asked) => (refreshSlots run entry space rest).outcome asked
      | (.ok (some value), asked) =>
        ((Effect.holding value.holdings (refreshSlots run entry space rest)).outcome
          (asked.take entry space row value)).map (Except.map ((row.1, value) :: ·)) id := by
  rw [refreshSlots, Effect.outcome_bind]
  rcases (Effect.holding (row.2.holdings ++ slotHoldings rest) (row.2.value? run)).outcome world with
    ⟨fault | value, asked⟩
  · rfl
  cases value with
  | none => rfl
  | some value =>
    have hwritten (taken : World) : Effect.outcome (do
        let values ← Effect.holding value.holdings (refreshSlots run entry space rest)
        return (row.1, value) :: values) taken =
          ((Effect.holding value.holdings (refreshSlots run entry space rest)).outcome taken).map
            (Except.map ((row.1, value) :: ·)) id := by
      rw [Effect.outcome_bind]
      rcases (Effect.holding value.holdings (refreshSlots run entry space rest)).outcome taken with
        ⟨fault | values, after⟩ <;> rfl
    by_cases hconstant : row.2.isConstant = true <;>
      simp only [hconstant, World.take, if_true, Bool.false_eq_true, if_false] <;>
      exact hwritten _

/-- A round that asks slots gives up in the end what it held on to. -/
theorem held_refreshSlots (run : Runner) (entry : EntryRef) (space : NamespaceRef)
    (slots : List (String × Slot)) (world : World) :
    ((refreshSlots run entry space slots).outcome world).2.held = world.held := by
  induction slots generalizing world with
  | nil => rfl
  | cons row rest ih =>
    rw [outcome_refreshSlots_cons, Effect.outcome_holding]
    split
    · next heq => exact (congrArg (·.2.held) heq).symm
    · next heq =>
      rw [ih]
      exact (congrArg (·.2.held) heq).symm
    · next value asked heq =>
      have hasked : world.held = asked.held := congrArg (·.2.held) heq
      rw [hasked]
      change (asked.take entry space row value).held = asked.held
      unfold World.take
      split <;> rfl

@[simp] theorem World.take_holding (world : World) (held : List Holding) (entry : EntryRef)
    (space : NamespaceRef) (row : String × Slot) (value : Value) :
    (world.holding held).take entry space row value =
      (world.take entry space row value).holding held := by
  unfold World.take
  split <;> rfl

/-- Once some slots have had their turns, a round goes on with the others. -/
theorem outcome_refreshSlots_append {turns : List Turn} {later : List (String × Slot)}
    {kept : List Holding}
    (h : Performed meanwhile run entry space (asking later kept turns) world after) :
    (refreshSlots run entry space (turns.map Turn.row ++ later)).outcome
        (world.holding (kept ++ world.held)) =
      ((refreshSlots run entry space later).outcome
        (after.holding (keptAfter kept turns ++ world.held))).map
          (Except.map (turns.filterMap Turn.value? ++ ·)) (·.holding (kept ++ world.held)) := by
  induction turns generalizing kept world with
  | nil =>
    cases h
    have hheld := held_refreshSlots run entry space later (after.holding (kept ++ after.held))
    rcases houtcome : (refreshSlots run entry space later).outcome
      (after.holding (kept ++ after.held)) with ⟨fault | values, final⟩ <;>
      · rw [houtcome] at hheld
        have hfinal : final = final.holding (kept ++ after.held) := (World.holding_eq_self hheld).symm
        simp only [List.map_nil, List.nil_append, keptAfter, houtcome]
        exact congrArg (Prod.mk _) hfinal
  | cons turn rest ih =>
    obtain ⟨taken, hturn, hrest⟩ := h.exists_of_append
    obtain ⟨asked, hasked, hwritten⟩ := hturn.exists_of_append
    have hheld : taken.held = world.held := hturn.held
    rw [performed_written] at hwritten
    rw [List.map_cons, List.cons_append, outcome_refreshSlots_cons, Turn.row,
      outcome_turn hasked]
    have hrest := ih hrest
    rw [hheld] at hrest
    cases hgiven : turn.given with
    | none =>
      rw [hgiven] at hwritten hrest
      have hvalue : turn.value? = none := by rw [Turn.value?, hgiven]; rfl
      subst hwritten
      simp only [keptAfter, hgiven, List.filterMap_cons, hvalue]
      exact hrest
    | some value =>
      rw [hgiven] at hwritten hrest
      have hvalue : turn.value? = some (turn.name, value) := by rw [Turn.value?, hgiven]; rfl
      subst hwritten
      rw [List.append_assoc] at hrest
      have hheldOn : (some value).toList.flatMap Value.holdings = value.holdings := by simp
      simp only [World.take_holding, Effect.outcome_holding_eq, World.held_holding,
        World.holding_holding, keptAfter, hgiven, List.filterMap_cons, hvalue]
      rw [hheldOn] at hrest ⊢
      rw [Turn.row] at hrest
      simp only [hrest]
      rcases (refreshSlots run entry space later).outcome
        (after.holding (keptAfter (value.holdings ++ kept) rest ++ world.held)) with
        ⟨fault | values, final⟩ <;> rfl

/-- A provider that fails ends the asking, once the slots before it have had their turns. -/
theorem outcome_refreshSlots_stopped {turns : List Turn} {row : String × Slot}
    {rest : List (String × Slot)} {kept : List Holding} {fault : Fault}
    (h : Performed meanwhile run entry space (asking (row :: rest) kept turns) world middle)
    (hunkept : row.2.kept? = none)
    (hfails : (Effect.holding (waiting row.2 rest (keptAfter kept turns))
      (ask run row.2.provider)).outcome middle = (.error fault, after)) :
    (refreshSlots run entry space (turns.map Turn.row ++ row :: rest)).outcome
        (world.holding (kept ++ world.held)) =
      (.error fault, after.holding (kept ++ world.held)) := by
  rw [waiting] at hfails
  rw [outcome_refreshSlots_append h, outcome_refreshSlots_cons, Slot.value?_eq, hunkept, ← h.held,
    Effect.outcome_holding_kept]
  simp only [hfails]
  rfl

/-- A round over some slots comes to one whose provider does not go on: the slots before it have had
their turns, and no answer of it leads anywhere. -/
structure Halts (meanwhile : Meanwhile) (run : Runner) (entry : EntryRef) (space : NamespaceRef)
    (kept : List Holding) (turns : List Turn) (row : String × Slot) (rest : List (String × Slot))
    (world middle : World) : Prop where
  performed : Performed meanwhile run entry space (asking (row :: rest) kept turns) world middle
  unkept : row.2.kept? = none
  halts : ∀ yielded after, ¬ (RoundStep.asked (waiting row.2 rest (keptAfter kept turns))
    row.2.provider yielded).Leads meanwhile run entry space middle after

/-- Either all slots have their turns, or there is a first one whose provider does not go on. -/
theorem exists_turns (meanwhile : Meanwhile) (run : Runner) (entry : EntryRef) (space : NamespaceRef)
    (kept : List Holding) (slots : List (String × Slot)) (world : World) :
    (∃ turns after, turns.map Turn.row = slots ∧
      Performed meanwhile run entry space (asking [] kept turns) world after) ∨
    ∃ turns row rest middle, turns.map Turn.row ++ row :: rest = slots ∧
      Halts meanwhile run entry space kept turns row rest world middle := by
  induction slots generalizing kept world with
  | nil => exact .inl ⟨[], world, rfl, .nil world⟩
  | cons row rest ih =>
    -- A first turn that goes on is put in front of the turns of the other slots.
    have hfirst (turn : Turn) (asked : World) (hrow : turn.row = row)
        (hasked : Performed meanwhile run entry space (turn.asked (waiting turn.slot rest kept)) world
          asked) :
        (∃ turns after, turns.map Turn.row = row :: rest ∧
          Performed meanwhile run entry space (asking [] kept turns) world after) ∨
        ∃ turns other later middle, turns.map Turn.row ++ other :: later = row :: rest ∧
          Halts meanwhile run entry space kept turns other later world middle := by
      have hturn := hasked.append ((performed_written turn).mpr rfl)
      rcases ih (turn.given.toList.flatMap Value.holdings ++ kept) _ with
        ⟨turns, after, hturns, hperformed⟩ | ⟨turns, other, later, middle, hturns, hhalts⟩
      · refine .inl ⟨turn :: turns, after, by rw [List.map_cons, hrow, hturns], ?_⟩
        rw [asking, List.append_nil, hturns]
        exact hturn.append hperformed
      · refine .inr ⟨turn :: turns, other, later, middle, ?_, ?_, hhalts.unkept, hhalts.halts⟩
        · rw [List.map_cons, List.cons_append, hrow, hturns]
        · rw [asking, hturns]
          exact hturn.append hhalts.performed
    cases hkept : row.2.kept? with
    | some value =>
      refine hfirst ⟨row.1, row.2, none⟩ world rfl ?_
      rw [Turn.asked, hkept]
      exact .nil world
    | none =>
      by_cases hleads : ∃ yielded after, (RoundStep.asked (waiting row.2 rest kept) row.2.provider
          yielded).Leads meanwhile run entry space world after
      · obtain ⟨yielded, after, hleads⟩ := hleads
        refine hfirst ⟨row.1, row.2, yielded⟩ after rfl ?_
        rw [Turn.asked, hkept]
        exact .cons hleads (.nil after)
      · refine .inr ⟨[], row, rest, world, rfl, .nil world, hkept, fun yielded after h => ?_⟩
        exact hleads ⟨yielded, after, h⟩

end ModuleLinkage.Ledger
