import Mathlib.Data.List.Chain
import ModuleLinkage.Proofs.Ledger.Course.Stages
import ModuleLinkage.Proofs.Ledger.Replacement.Recording

/-!
# Consumers are called on change

The log of calls tells which values a batch's consumer has received under a name
(`World.received`). In every world that a run passes, no two values that a consumer received one after
the other are the same, and what its batch has noted as seen is what it received last
(`World.Hears`). Each step keeps this (`Step.hears`): a value is noted before the consumer is called,
and only if it is not the one noted before. So it does not matter what the callback does, how its lines
end, or which rounds begin meanwhile (`firesOnChange_of_course`).
-/

set_option autoImplicit false

namespace ModuleLinkage.Ledger

/-- What a batch's consumer `slot` receives under `name` by a call. -/
def Callback.received? (batch : BatchRef) (slot name : String) : Callback → Option Value
  | .provider _ => none
  | .consumer other otherSlot otherName value =>
    if other = batch ∧ otherSlot = slot ∧ otherName = name then some value else none

/-- The values that a batch's consumer `slot` has received under `name`, latest first. -/
def World.received (world : World) (batch : BatchRef) (slot name : String) : List Value :=
  world.calls.filterMap (Callback.received? batch slot name)

/-- Consumers have received no value twice in a row, and what is noted as seen is what was received
last. -/
structure World.Hears (world : World) : Prop where
  changing : ∀ batch slot name, (world.received batch slot name).IsChain fun later earlier =>
    later.same earlier = false
  seen : ∀ batch slot name, world.seen? batch slot name = (world.received batch slot name).head?

variable {allowed : Command → Prop} {world after : World}

theorem World.received_handOver (world : World) (batch : BatchRef) (slot name : String)
    (value : Value) (other : BatchRef) (otherSlot otherName : String) :
    (world.handOver batch slot name value).received other otherSlot otherName =
      if other = batch ∧ otherSlot = slot ∧ otherName = name then
        value :: world.received other otherSlot otherName
      else world.received other otherSlot otherName := by
  have hsame : (batch = other ∧ slot = otherSlot ∧ name = otherName) ↔
      (other = batch ∧ otherSlot = slot ∧ otherName = name) := by
    rw [eq_comm, @eq_comm _ slot, @eq_comm _ name]
  unfold World.received
  rw [World.calls_handOver]
  by_cases h : other = batch ∧ otherSlot = slot ∧ otherName = name
  · rw [if_pos h, List.filterMap_cons_some]
    exact if_pos (hsame.mpr h)
  · rw [if_neg h, List.filterMap_cons_none]
    exact if_neg (hsame.not.mpr h)

theorem World.Elsewhere.received (h : world.Elsewhere after) (batch : BatchRef)
    (slot name : String) : after.received batch slot name = world.received batch slot name := by
  have hconsumers (calls : List Callback) :
      calls.filterMap (Callback.received? batch slot name) =
        (calls.filter Callback.isConsumer).filterMap (Callback.received? batch slot name) := by
    rw [List.filterMap_filter]
    refine List.filterMap_congr fun call _ => ?_
    cases call <;> rfl
  unfold World.received
  rw [hconsumers after.calls, hconsumers world.calls, h.calls]

namespace World.Hears

theorem ofHost (host : Host) : (World.ofHost host).Hears where
  changing _ _ _ := .nil
  seen _ _ _ := rfl

/-- A change after which as much was received and as much is noted. -/
theorem of_same (h : world.Hears)
    (hreceived : ∀ batch slot name, after.received batch slot name = world.received batch slot name)
    (hseen : ∀ batch slot name, after.seen? batch slot name = world.seen? batch slot name) :
    after.Hears where
  changing batch slot name := by
    rw [hreceived]
    exact h.changing batch slot name
  seen batch slot name := by
    rw [hreceived, hseen]
    exact h.seen batch slot name

/-- A batch that does not exist has received nothing. -/
theorem received_of_size_le (h : world.Hears) {batch : BatchRef}
    (hsize : world.batches.size ≤ batch.index) (slot name : String) :
    world.received batch slot name = [] := by
  have hseen := h.seen batch slot name
  rw [World.seen?, world.batch_of_size_le hsize] at hseen
  exact List.head?_eq_none_iff.mp hseen.symm

theorem addConsumers (h : world.Hears) (entry : EntryRef) (module : ModuleRef)
    (consumers : Table Consumer) (key : Option String) (spaces : List NamespaceRef) :
    (world.addConsumers entry module consumers key spaces).Hears := by
  have hrenewed := world.renewed_addConsumers entry module consumers key spaces
  refine h.of_same (fun batch slot name => ?_) fun batch slot name => ?_
  · unfold received
    rw [hrenewed.rest]
  · by_cases hnew : batch.index = world.batches.size
    · -- The new batch has seen nothing, and there was none in its place.
      have hnone : world.seen? batch slot name = none := by
        rw [h.seen, h.received_of_size_le (Nat.le_of_eq hnew.symm)]
        rfl
      obtain rfl : batch = ⟨world.batches.size⟩ := by
        cases batch
        exact congrArg BatchRef.mk hnew
      rw [hnone, seen?, hrenewed.added]
      rfl
    · rw [seen?, hrenewed.same batch hnew]
      rfl

/-- A value is handed over only if it is not what the consumer received last. -/
theorem handOver (h : world.Hears) {batch : BatchRef} (hactive : (world.batch batch).isActive = true)
    {slot name : String} {value : Value}
    (hnew : ∀ last, world.seen? batch slot name = some last → value.same last = false) :
    (world.handOver batch slot name value).Hears := by
  have hsize := world.lt_of_isActive hactive
  constructor
  · intro other otherSlot otherName
    rw [world.received_handOver]
    split
    · next hother =>
      obtain ⟨rfl, rfl, rfl⟩ := hother
      refine List.isChain_cons.mpr ⟨fun last hlast => hnew last ?_, h.changing _ _ _⟩
      rw [h.seen]
      exact hlast
    · exact h.changing _ _ _
  · intro other otherSlot otherName
    rw [world.received_handOver, world.seen?_handOver]
    by_cases hother : other = batch ∧ otherSlot = slot ∧ otherName = name
    · rw [if_pos hother, if_pos ⟨hother.1, hsize, hother.2⟩]
      rfl
    · rw [if_neg hother, if_neg fun hall => hother ⟨hall.1, hall.2.2⟩]
      exact h.seen _ _ _

end World.Hears

theorem Move.hears (hmove : Move allowed world after) (h : world.Hears) : after.Hears := by
  rcases hmove.batch_cases with ⟨helsewhere, -⟩ | ⟨entry, module, consumers, key, spaces, rfl⟩ |
    ⟨batch, name, value, -, rfl⟩ | ⟨batch, slot, name, value, hactive, hnew, rfl⟩
  · refine h.of_same (helsewhere.received) fun batch slot name => ?_
    unfold World.seen?
    rw [helsewhere.batch]
  · exact h.addConsumers entry module consumers key spaces
  · refine h.of_same (fun other slot otherName => ?_) (world.seen?_writeThrough batch name value)
    unfold World.received
    rw [world.calls_writeThrough]
  · exact h.handOver hactive hnew

theorem Step.hears {past : List World} (hstep : Step allowed past world after) (h : world.Hears) :
    after.Hears := by
  cases hstep with
  | moved hmove => exact hmove.hears h
  | completed => exact h.of_same (fun _ _ _ => rfl) fun _ _ _ => rfl

/-- Calls are added to the log, and none is forgotten. -/
theorem Step.calls_suffix {past : List World} (hstep : Step allowed past world after) :
    world.calls <:+ after.calls := by
  cases hstep with
  | moved hmove =>
    rcases hmove.batch_cases with ⟨-, hcalls⟩ | ⟨entry, module, consumers, key, spaces, rfl⟩ |
      ⟨batch, name, value, -, rfl⟩ | ⟨batch, slot, name, value, -, -, rfl⟩
    · exact hcalls
    · have hcalls := (world.renewed_addConsumers entry module consumers key spaces).rest
      exact hcalls ▸ List.suffix_rfl
    · have hcalls := world.calls_writeThrough batch name value
      exact hcalls ▸ List.suffix_rfl
    · exact List.suffix_cons _ _
  | completed => exact List.suffix_rfl

/-! ### The result -/

/-- What consumers receive in the worlds that a run passes. -/
structure FiresOnChange (stages : List World) : Prop where
  /-- No two values that a consumer receives under a name one after the other are the same. -/
  changing : ∀ world ∈ stages, ∀ batch slot name,
    (world.received batch slot name).IsChain fun later earlier => later.same earlier = false
  /-- What a batch has noted as seen is what its consumer was called with last. -/
  seen : ∀ world ∈ stages, ∀ batch slot name,
    world.seen? batch slot name = (world.received batch slot name).head?
  /-- What was received stays in the log. -/
  logged : ∀ {earlier later : World} {before between : List World},
    later :: between <:+ stages → earlier :: before <:+ later :: between →
      ∀ batch slot name, earlier.received batch slot name <:+ later.received batch slot name
  /-- Whatever runs next goes on with the run. -/
  continues : ∀ world ∈ stages, world.Continues fun _ => True

/-- What has been received in a world is the beginning of what has been received later in a course. -/
theorem Course.received_suffix {start : World} {stages : List World}
    (h : Course allowed start stages) {earlier later : World} {before between : List World}
    (hlater : later :: between <:+ stages) (hearlier : earlier :: before <:+ later :: between)
    (batch : BatchRef) (slot name : String) :
    earlier.received batch slot name <:+ later.received batch slot name := by
  by_contra hnot
  obtain ⟨next, world, rest, hnext, -, hworld, hlost⟩ :=
    exists_loss (fun world => earlier.received batch slot name <:+
      world.received batch slot name) hearlier List.suffix_rfl hnot
  have hstep := h.step_of_suffix (hnext.trans hlater)
  exact hlost (hworld.trans (hstep.calls_suffix.filterMap _))

/-- **Consumers are called on change.** In every world that a run passes, whatever its programs,
providers and consumers do, no consumer has received two values that are the same one after the
other under one name, and its batch has noted as seen the value with which it was called last. -/
theorem firesOnChange_of_course {host : Host} {stages : List World}
    (h : Course (fun _ => True) (World.ofHost host) stages) : FiresOnChange stages := by
  have hhears := h.invariant (.ofHost host) Step.hears
  constructor
  · intro world hworld
    exact (hhears world hworld).changing
  · intro world hworld
    exact (hhears world hworld).seen
  · intro earlier later before between hlater hearlier
    exact h.received_suffix hlater hearlier
  · intro world _
    exact world.confined_true.continues

/-- The world after two rounds in which a consumer assigns the exported variable and begins a round of
its own. -/
def reheard : World :=
  (World.ofHost default).afterwards 4
    (Outlet.rewriting ++ List.replicate 2 (Command.propagate (some "m") .undefined).line)

theorem goesOn_reheard : World.GoesOn (fun _ => True) (World.ofHost default) reheard :=
  (World.ofHost default).confined_true.continues.program 4 (Program.confined_true _)

/-- The result for a run with nested rounds: the consumer whose turn comes last receives the new
text from the inner round, the old one from the outer round, and the new one again from the round
after it. -/
theorem firesOnChange_reheard : ∃ stages,
    Course (fun _ => True) (World.ofHost default) (reheard :: stages) ∧
    FiresOnChange (reheard :: stages) ∧
    reheard.received ⟨1⟩ "x" "x" = [.text "new", .text "old", .text "new"] := by
  obtain ⟨stages, hcourse, -⟩ := goesOn_reheard _ [] .start
  exact ⟨stages, hcourse, firesOnChange_of_course hcourse, by decide +kernel⟩

end ModuleLinkage.Ledger
