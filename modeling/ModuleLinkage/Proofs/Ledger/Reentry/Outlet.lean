import ModuleLinkage.Proofs.Ledger.Commands

/-!
# An exported variable and one of its consumers

While a round delivers the values that it took in the beginning, consumers may assign exported
variables and begin further rounds, over the same entry too. What becomes of one exported variable
and one consumer that is concerned with it, together an `Outlet`, can be read off the list of calls:
a round over the entry asks the provider of the variable before it delivers anything, so the calls
since the provider was last asked (`Outlet.lastHandedSince?`) are those made since the latest of all
rounds over the entry began.

`Outlet.Relay` says how far the world may move by deliveries: either it is quiet around the outlet
(`Outlet.Quiet`), or in the end the outlet is settled (`Outlet.Settled`): the entry's namespace shows
what the variable holds, and the consumer has been handed something since the latest round began or
else has seen what the variable holds.
-/

set_option autoImplicit false

namespace ModuleLinkage.Ledger

/-- Whether a call asks a provider for its value. -/
def Callback.asks (provider : ProviderRef) : Callback → Bool
  | .provider ref => ref == provider
  | .consumer .. => false

/-- An exported name whose values come from a variable, and a consumer that is concerned with it. -/
structure Outlet where
  entry : EntryRef
  name : String
  provider : ProviderRef
  binding : BindingRef
  batch : BatchRef
  /-- The name of the consumer in its batch: the exported name, or the one for every name. -/
  slot : String

namespace Outlet

variable (outlet : Outlet)

/-- What a call hands to the consumer. -/
def handed? : Callback → Option Value
  | .provider _ => none
  | .consumer batch slot name value =>
    if batch = outlet.batch ∧ slot = outlet.slot ∧ name = outlet.name then some value else none

/-- What the consumer was handed last in a list of calls, latest first. -/
def lastHanded? (calls : List Callback) : Option Value :=
  calls.findSome? outlet.handed?

/-- What the consumer was handed last since the provider was last asked. -/
def lastHandedSince? (calls : List Callback) : Option Value :=
  outlet.lastHanded? (calls.takeWhile fun call => !call.asks outlet.provider)

/-- What the exported variable holds. -/
def current (world : World) : Option Value :=
  world.binding outlet.binding

/-- What the entry's namespace shows. -/
def shown (world : World) : Option Value :=
  world.member? (world.entry outlet.entry).space outlet.name

/-- What the batch has noted as the value that its consumer has seen. -/
def seen (world : World) : Option Value :=
  world.seen? outlet.batch outlet.slot outlet.name

/-- The namespaces listed with the batch, if the consumer is the first one to which the batch gives
values of the name. -/
def listed (world : World) : List NamespaceRef :=
  if ((world.batch outlet.batch).concerned outlet.name).head?.map (·.1) = some outlet.slot then
    (world.batch outlet.batch).spaces
  else []

/-- The listed namespaces show what the consumer has seen. -/
def Lists (world : World) : Prop :=
  ∀ space ∈ outlet.listed world, world.member? space outlet.name = outlet.seen world

theorem listed_subset (world : World) {space : NamespaceRef} (h : space ∈ outlet.listed world) :
    space ∈ (world.batch outlet.batch).spaces := by
  unfold listed at h
  split at h
  · exact h
  · cases h

variable {outlet}

/-! ### Lists of calls -/

theorem lastHanded?_append (newer older : List Callback) :
    outlet.lastHanded? (newer ++ older) =
      (outlet.lastHanded? newer).or (outlet.lastHanded? older) :=
  List.findSome?_append

/-- Calls of providers hand nothing to consumers. -/
theorem lastHanded?_providers (refs : List ProviderRef) :
    outlet.lastHanded? (refs.map .provider) = none := by
  rw [lastHanded?, List.findSome?_eq_none_iff]
  intro call hcall
  obtain ⟨ref, -, rfl⟩ := List.mem_map.mp hcall
  rfl

/-- What was handed since the provider was last asked was handed last. -/
theorem lastHanded?_of_since {calls : List Callback} {value : Value}
    (h : outlet.lastHandedSince? calls = some value) : outlet.lastHanded? calls = some value := by
  rw [← List.takeWhile_append_dropWhile (p := fun call => !call.asks outlet.provider) (l := calls),
    lastHanded?_append]
  unfold lastHandedSince? at h
  rw [h, Option.some_or]

/-- Calls that do not ask the provider come on top of those since it was last asked. -/
theorem lastHandedSince?_append {newer older : List Callback}
    (hnewer : ∀ call ∈ newer, call.asks outlet.provider = false) :
    outlet.lastHandedSince? (newer ++ older) =
      (outlet.lastHanded? newer).or (outlet.lastHandedSince? older) := by
  unfold lastHandedSince?
  rw [List.takeWhile_append_of_pos fun call hcall => by simp [hnewer call hcall],
    lastHanded?_append]

/-! ### How the world moves -/

variable {first second third : World}

/-- The calls in between, latest first, and what the batch has noted of them. -/
structure Records (outlet : Outlet) (newer : List Callback) (before after : World) : Prop where
  calls : after.calls = newer ++ before.calls
  seen : outlet.seen after = (outlet.lastHanded? newer).or (outlet.seen before)

theorem Records.trans {newer newest : List Callback} (h : outlet.Records newer first second)
    (h' : outlet.Records newest second third) : outlet.Records (newest ++ newer) first third where
  calls := by rw [h'.calls, h.calls, List.append_assoc]
  seen := by rw [h'.seen, h.seen, lastHanded?_append, Option.or_assoc]

/-- Nothing that concerns the outlet has happened but deliveries to the consumer. -/
structure Quiet (outlet : Outlet) (before after : World) : Prop where
  current : outlet.current after = outlet.current before
  shown : outlet.shown after = outlet.shown before
  records : ∃ newer, outlet.Records newer before after ∧
    ∀ call ∈ newer, call.asks outlet.provider = false

theorem Quiet.trans (h : outlet.Quiet first second) (h' : outlet.Quiet second third) :
    outlet.Quiet first third where
  current := h'.current.trans h.current
  shown := h'.shown.trans h.shown
  records := by
    obtain ⟨newer, hrecords, hnewer⟩ := h.records
    obtain ⟨newest, hrecords', hnewest⟩ := h'.records
    refine ⟨newest ++ newer, hrecords.trans hrecords', fun call hcall => ?_⟩
    rcases List.mem_append.mp hcall with hcall | hcall
    · exact hnewest call hcall
    · exact hnewer call hcall

/-- What the variable holds is shown by the entry's namespace, and it is what the consumer has seen
unless the consumer was handed something since the provider was last asked. -/
structure Told (outlet : Outlet) (world : World) (value : Value) : Prop where
  shown : outlet.shown world = some value
  seen : outlet.lastHandedSince? world.calls = none → outlet.seen world = some value

/-- Where nothing but deliveries to the consumer happen, it stays told. -/
theorem Quiet.told (h : outlet.Quiet first second) {value : Value} (htold : outlet.Told first value) :
    outlet.Told second value where
  shown := h.shown.trans htold.shown
  seen hnone := by
    obtain ⟨newer, hrecords, hnewer⟩ := h.records
    rw [hrecords.calls, lastHandedSince?_append hnewer, Option.or_eq_none_iff] at hnone
    rw [hrecords.seen, hnone.1, Option.none_or]
    exact htold.seen hnone.2

/-- The consumer was told what the variable holds, and the listed namespaces follow the consumer. -/
structure Settled (outlet : Outlet) (world : World) (value : Value) : Prop
    extends outlet.Told world value where
  lists : outlet.Lists world

/-- How far the world may move while values are delivered. -/
structure Relay (outlet : Outlet) (before after : World) : Prop
    extends World.Keeps before after where
  records : ∃ newer, outlet.Records newer before after
  lists : outlet.Lists before → outlet.Lists after
  quiet_or_settled : outlet.Quiet before after ∨
    ∀ value, outlet.current after = some value → outlet.Settled after value

theorem Relay.of_quiet (hkeeps : first.Keeps second) (hquiet : outlet.Quiet first second)
    (hlists : outlet.Lists first → outlet.Lists second) : outlet.Relay first second where
  toKeeps := hkeeps
  records := hquiet.records.imp fun _ h => h.1
  lists := hlists
  quiet_or_settled := .inl hquiet

/-- A settled outlet remains so. -/
theorem Relay.settled (h : outlet.Relay first second)
    (hsettled : ∀ value, outlet.current first = some value → outlet.Settled first value) :
    ∀ value, outlet.current second = some value → outlet.Settled second value := by
  rcases h.quiet_or_settled with hquiet | hdone
  · intro value hvalue
    have hbefore := hsettled value (hquiet.current ▸ hvalue)
    exact ⟨hquiet.told hbefore.toTold, h.lists hbefore.lists⟩
  · exact hdone

theorem Relay.trans (h : outlet.Relay first second) (h' : outlet.Relay second third) :
    outlet.Relay first third where
  toKeeps := h.toKeeps.trans h'.toKeeps
  records := by
    obtain ⟨newer, hrecords⟩ := h.records
    obtain ⟨newest, hrecords'⟩ := h'.records
    exact ⟨_, hrecords.trans hrecords'⟩
  lists := h'.lists ∘ h.lists
  quiet_or_settled := by
    rcases h.quiet_or_settled with hquiet | hsettled
    · rcases h'.quiet_or_settled with hquiet' | hsettled'
      · exact .inl (hquiet.trans hquiet')
      · exact .inr hsettled'
    · exact .inr (h'.settled hsettled)

end Outlet

/-! ### Steps around an outlet -/

section

variable {outlet : Outlet} {first second : World}

theorem World.Keeps.listed (h : first.Keeps second) :
    outlet.listed second = outlet.listed first := by
  simp only [Outlet.listed, h.concerned, h.spaces]

/-- A step that calls no consumer and changes neither what batches have seen nor what the listed
namespaces show. -/
theorem World.Keeps.lists (h : first.Keeps second) (hseen : outlet.seen second = outlet.seen first)
    (hmember : ∀ space ∈ outlet.listed first,
      second.member? space outlet.name = first.member? space outlet.name)
    (hlists : outlet.Lists first) : outlet.Lists second := by
  intro space hspace
  rw [h.listed] at hspace
  rw [hmember space hspace, hseen]
  exact hlists space hspace

/-- A step that changes nothing around the outlet. -/
theorem World.Keeps.relay (h : first.Keeps second) {newer : List Callback}
    (hcalls : second.calls = newer ++ first.calls)
    (hnewer : ∀ call ∈ newer, call.asks outlet.provider = false ∧ outlet.handed? call = none)
    (hseen : outlet.seen second = outlet.seen first)
    (hcurrent : outlet.current second = outlet.current first)
    (hshown : outlet.shown second = outlet.shown first)
    (hmember : ∀ space ∈ outlet.listed first,
      second.member? space outlet.name = first.member? space outlet.name) :
    outlet.Relay first second := by
  have hnone : outlet.lastHanded? newer = none :=
    List.findSome?_eq_none_iff.mpr fun call hcall => (hnewer call hcall).2
  refine .of_quiet h ⟨hcurrent, hshown, newer, ⟨hcalls, ?_⟩, fun call hcall => ?_⟩ ?_
  · rw [hnone, Option.none_or, hseen]
  · exact (hnewer call hcall).1
  · exact h.lists hseen hmember

theorem World.Alike.relay (h : first.Alike second) : outlet.Relay first second := by
  refine h.toKeeps.relay h.calls (by simp) (h.seen? _ _ _) (h.binding _) ?_ ?_
  · unfold Outlet.shown
    rw [h.spaceOf, h.member?]
  · exact fun space _ => h.member? space _

theorem Outlet.Relay.refl (world : World) : outlet.Relay world world :=
  World.Alike.relay (.refl world)

end

end ModuleLinkage.Ledger
