import ModuleLinkage.Ledger.Evaluation
import ModuleLinkage.Ledger.Lifetime
import ModuleLinkage.Ledger.Naming

/-!
Propagation rounds. A round asks the providers of an entry for their values, puts these into the
entry's namespace, and then hands each value to the consumers that have not received it last. Every
provider and consumer may run programs, and so begin rounds of its own; whatever a round still works
with is held on to meanwhile.
-/

set_option autoImplicit false

namespace ModuleLinkage.Ledger

/-- The reply to call number `calls`; the last one again when all have been given. -/
def replyAt (replies : List Reply) (calls : Nat) : Option Reply :=
  replies[calls]? <|> replies.getLast?

/-- Asks a provider for its value; a binding that holds nothing gives none. -/
def ask (run : Runner) (ref : ProviderRef) : Effect (Option Value) := do
  let calls ← modifyGet (·.noteCall ref)
  match ((← get).provider ref).source with
  | .value value => return some value
  | .binding binding => return (← get).binding binding
  | .counted label value scope =>
    let count ← modifyGet (·.countCall label)
    Effect.report (.counted label count)
    match value with
    | some value => return some (← value.evaluate scope)
    | none => return some (.number (Float.ofNat count))
  | .listed replies scope =>
    match replyAt replies calls with
    | some (.value value) => return some (← value.evaluate scope)
    | some (.failure message) => Effect.fail (.thrown message)
    | none => return some .undefined
  | .failing message => Effect.fail (.thrown message)
  | .computed lines value scope =>
    run scope "getter" lines
    return some (← value.evaluate scope)

/-- The value of a slot: the one kept of a constant provider, or else a new one. -/
def Slot.value? (run : Runner) (slot : Slot) : Effect (Option Value) :=
  match slot.isConstant, slot.cached with
  | true, some value => return some value
  | _, _ => ask run slot.provider

/-- What slots keep. -/
def slotHoldings (slots : List (String × Slot)) : List Holding :=
  slots.flatMap fun (_, slot) => slot.holdings

/-- Asks the providers in `slots` in order and writes what they yield into the namespace. The first
failure ends it. The slots that are still to be asked and the values already there are held on
to. -/
def refreshSlots (run : Runner) (entry : EntryRef) (space : NamespaceRef) :
    List (String × Slot) → Effect (List (String × Value))
  | [] => return []
  | (name, slot) :: rest => do
    match ← Effect.holding (slot.holdings ++ slotHoldings rest) (slot.value? run) with
    | none => refreshSlots run entry space rest
    | some value =>
      if slot.isConstant then modify (·.keepValue entry name slot.provider value)
      modify (·.setMember space name value)
      let values ← Effect.holding value.holdings (refreshSlots run entry space rest)
      return (name, value) :: values

/-- The current values of an entry's exported names. A namespace without providers that is no module
exports itself as the default. -/
def refresh (run : Runner) (entry : EntryRef) : Effect (List (String × Value)) := do
  let world ← get
  let record := world.entry entry
  if record.slots.rows.isEmpty && !(world.space record.space).isModule then
    return [(defaultName, .space record.space)]
  else
    Effect.holding [.space record.space]
      (refreshSlots run entry record.space record.slots.rows)

/-- Calls the consumer `slot` of a batch with a value. The lines of a callback may fail; that is
reported and goes no further. -/
def Consumer.receive (run : Runner) (consumer : Consumer) (batch : BatchRef) (slot name : String)
    (value : Value) : Effect Unit := do
  modify (·.logCall (.consumer batch slot name value))
  match consumer with
  | .assign binding => modify (·.setBinding binding value)
  | .copyInto space => modify (·.setMember space name value)
  | .callback label lines scope =>
    match label with
    | some label => Effect.report (.received label name (← showValue value))
    | none => pure ()
    match ← (run { scope with received := some (value, name) } "setter" lines).attempt with
    | .ok () => pure ()
    | .error error => Effect.report (.consumerFailed error)

/-- Gives a value to the consumer `slot` of a batch, unless the batch is at its end or the consumer
received the same value last. Tells whether the batch goes on. -/
def deliverTo (run : Runner) (batch : BatchRef) (name : String) (value : Value)
    (slot : String) (consumer : Consumer) : Effect Bool := do
  let world ← get
  if !(world.batch batch).isActive then return false
  else if ((world.seen? batch slot name).map value.same).getD false then return true
  else
    modify (·.noteSeen batch slot name value)
    consumer.receive run batch slot name value
    return true

/-- The consumers of a batch that are concerned with `name`: first the one of that name, then the
one for every name. -/
def Batch.concerned (batch : Batch) (name : String) : List (String × Consumer) :=
  let own := (batch.consumers.get? name).map (name, ·)
  let every := if name == everyName then none
    else (batch.consumers.get? everyName).map (everyName, ·)
  own.toList ++ every.toList

/-- Delivers a value to the consumers in `concerned`, until the batch is at its end. -/
def deliverToAll (run : Runner) (batch : BatchRef) (name : String) (value : Value) :
    List (String × Consumer) → Effect Unit
  | [] => return ()
  | (slot, consumer) :: rest => do
    if ← deliverTo run batch name value slot consumer then
      deliverToAll run batch name value rest

/-- Delivers a value to a batch: into its namespaces and to its consumers, if one of these is
concerned with the name. -/
def deliver (run : Runner) (batch : BatchRef) (name : String) (value : Value) : Effect Unit := do
  let concerned := ((← get).batch batch).concerned name
  if concerned.isEmpty then return ()
  modify (·.writeThrough batch name value)
  deliverToAll run batch name value concerned

/-- Delivers values to a batch in order, until the batch is at its end. -/
def deliverValues (run : Runner) (batch : BatchRef) : List (String × Value) → Effect Unit
  | [] => return ()
  | (name, value) :: rest => do
    if ((← get).batch batch).isActive then
      deliver run batch name value
      deliverValues run batch rest

/-- Delivers values to batches, one batch after the other. The batches whose turn is still to come
are held on to. -/
def deliverToBatches (run : Runner) (values : List (String × Value)) :
    List BatchRef → Effect Unit
  | [] => return ()
  | batch :: rest => do
    Effect.holding ((batch :: rest).map .batch) (deliverValues run batch values)
    deliverToBatches run values rest

/-- A propagation round. A provider's failure ends it before anything is delivered; batches that are
registered meanwhile wait for the next round. -/
def propagate (run : Runner) (entry : EntryRef) : Effect Unit := do
  let values ← refresh run entry
  let batches := ((← get).entry entry).batches
  let kept := values.flatMap fun (_, value) => value.holdings
  Effect.holding kept (deliverToBatches run values batches)

end ModuleLinkage.Ledger
