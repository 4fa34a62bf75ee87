import Mathlib.Logic.Relation
import ModuleLinkage.Proofs.Ledger.Replacement.History

/-!
# Moves

Whatever a run does to the world comes down to the elementary changes of this module (`Move`), one for
each kind of change. A move says what must be the case for it to happen: values go only to active
batches, and a consumer takes only a value that it has not taken last.

Which programs a run may meet is a parameter. A program is confined if every command in it, and in
the lines inside its commands, is allowed (`Program.Confined`); a world is confined if all that it
could still run is (`World.Confined`): the bodies that its host has, its providers and its
consumers. Moves keep a world confined (`Move.confined`).
-/

set_option autoImplicit false

namespace ModuleLinkage.Ledger

/-! ### Confined programs -/

/-- The lines inside a provider. -/
def ProviderTerm.lines : ProviderTerm → Program
  | .computed lines _ => lines
  | _ => []

/-- The lines inside a consumer. -/
def ConsumerTerm.lines : ConsumerTerm → Program
  | .callback _ lines => lines
  | _ => []

/-- The lines inside the consumers of a subscription. -/
def Subscription.lines (subscription : Subscription ConsumerTerm) : Program :=
  (subscription.consumers.getD []).flatMap fun row => row.2.lines

/-- The lines inside a command. -/
def Command.lines : Command → Program
  | .provide _ providers _ | .addProviders _ providers _ =>
    providers.flatMap fun row => row.2.lines
  | .watch _ _ subscription | .importNow _ _ subscription | .addConsumers _ _ subscription =>
    subscription.lines
  | .evaluate _ lines => lines
  | _ => []

/-- Whether a command stands in a line inside another one. -/
def Command.Encloses (outer inner : Command) : Prop :=
  ∃ line ∈ outer.lines, line.command = inner

/-- A command is allowed, and so are all commands inside it. -/
def Command.Confined (allowed : Command → Prop) (command : Command) : Prop :=
  ∀ other, Relation.ReflTransGen Command.Encloses command other → allowed other

/-- All commands of a program are allowed, and so are all commands inside them. -/
def Program.Confined (allowed : Command → Prop) (program : Program) : Prop :=
  ∀ line ∈ program, line.command.Confined allowed

variable {allowed : Command → Prop}

theorem Command.confined_iff {command : Command} : command.Confined allowed ↔
    allowed command ∧ Program.Confined allowed command.lines := by
  constructor
  · intro h
    refine ⟨h command .refl, fun line hline other hother => h other ?_⟩
    exact .head ⟨line, hline, rfl⟩ hother
  · rintro ⟨hallowed, hlines⟩ other hother
    cases hother using Relation.ReflTransGen.head_induction_on with
    | refl => exact hallowed
    | head hencloses hother =>
      obtain ⟨line, hline, rfl⟩ := hencloses
      exact hlines line hline other hother

/-- Where every command is allowed, all programs are confined. -/
theorem Program.confined_true (program : Program) : Program.Confined (fun _ => True) program :=
  fun _ _ _ _ => trivial

theorem Program.confined_nil : Program.Confined allowed [] :=
  fun _ h => absurd h List.not_mem_nil

theorem Program.confined_cons {line : Line} {rest : Program} :
    Program.Confined allowed (line :: rest) ↔
      line.command.Confined allowed ∧ Program.Confined allowed rest :=
  List.forall_mem_cons

theorem Program.confined_append {first second : Program} :
    Program.Confined allowed (first ++ second) ↔
      Program.Confined allowed first ∧ Program.Confined allowed second :=
  List.forall_mem_append

/-- The lines that a provider's source runs. -/
def Source.lines : Source → Program
  | .computed lines _ _ => lines
  | _ => []

/-- The lines that a consumer runs. -/
def Consumer.lines : Consumer → Program
  | .callback _ lines _ => lines
  | _ => []

/-- The lines that consumers run. -/
def Consumer.linesOf (consumers : Table Consumer) : Program :=
  consumers.rows.flatMap fun row => row.2.lines

/-- Consumers are confined if each of them is. -/
theorem Consumer.confined_linesOf {consumers : Table Consumer} :
    Program.Confined allowed (Consumer.linesOf consumers) ↔
      ∀ row ∈ consumers.rows, Program.Confined allowed row.2.lines := by
  simp only [Program.Confined, Consumer.linesOf, List.mem_flatMap]
  exact ⟨fun h row hrow line hline => h line ⟨row, hrow, hline⟩,
    fun h line ⟨row, hrow, hline⟩ => h row hrow line hline⟩

/-- All that a world could still run is allowed. -/
structure World.Confined (allowed : Command → Prop) (world : World) : Prop where
  bodies : ∀ row ∈ world.host.bodies.rows, Program.Confined allowed row.2
  providers : ∀ ref, Program.Confined allowed (world.provider ref).source.lines
  consumers : ∀ ref, Program.Confined allowed (Consumer.linesOf (world.batch ref).consumers)

theorem World.confined_true (world : World) : world.Confined fun _ => True :=
  ⟨fun _ _ => Program.confined_true _, fun _ => Program.confined_true _,
    fun _ => Program.confined_true _⟩

/-- A new world is confined if the bodies that its host has are. -/
theorem World.confined_ofHost {host : Host}
    (h : ∀ row ∈ host.bodies.rows, Program.Confined allowed row.2) :
    (World.ofHost host).Confined allowed :=
  ⟨h, fun _ => Program.confined_nil, fun _ => Program.confined_nil⟩

/-! ### Moves -/

/-- Only names, imports under way, counted labels, what is held and reports are different. -/
def World.Noted (before after : World) : Prop :=
  after = { before with
    names := after.names, imports := after.imports, counts := after.counts
    unnamed := after.unnamed, held := after.held, events := after.events }

/-- An elementary change of the world. -/
inductive Move (allowed : Command → Prop) : World → World → Prop
  | noted {world after : World} (h : world.Noted after) : Move allowed world after
  | newBinding {world : World} (value : Option Value) : Move allowed world (world.newBinding value).2
  | setBinding {world : World} (ref : BindingRef) (value : Value) :
      Move allowed world (world.setBinding ref value)
  | newSpace {world : World} (isModule : Bool) : Move allowed world (world.newSpace isModule).2
  | setMember {world : World} (ref : NamespaceRef) (name : String) (value : Value) :
      Move allowed world (world.setMember ref name value)
  | removeMember {world : World} (ref : NamespaceRef) (name : String) :
      Move allowed world (world.removeMember ref name)
  | markModule {world : World} (ref : NamespaceRef) : Move allowed world (world.markModule ref)
  | newModule {world : World} (id : String) (isEnabled : Bool) :
      Move allowed world (world.newModule id isEnabled).2
  | enable {world : World} (ref : ModuleRef) : Move allowed world (world.enable ref).2
  | setLoaded {world : World} (ref : ModuleRef) (loaded : Bool) :
      Move allowed world (world.setLoaded ref loaded)
  | setExports {world : World} (ref : ModuleRef) (exports : NamespaceRef) :
      Move allowed world (world.setExports ref exports)
  | entryFor {world : World} (space : NamespaceRef) : Move allowed world (world.entryFor space).2
  | settleOwner {world : World} (ref : EntryRef) (module : ModuleRef) :
      Move allowed world (world.settleOwner ref module)
  /-- An entry is loaded by a command of its own. -/
  | markLoaded {world : World} (ref : EntryRef) (h : ∃ term, allowed (.markLoaded term)) :
      Move allowed world (world.markLoaded ref)
  | newProvider {world : World} (source : Source) (h : Program.Confined allowed source.lines) :
      Move allowed world (world.newProvider source).2
  | addProviders {world : World} (ref : EntryRef) (providers : Table ProviderRef)
      (isConstant : Bool) : Move allowed world (world.addProviders ref providers isConstant)
  | noteCall {world : World} (ref : ProviderRef) : Move allowed world (world.noteCall ref).2
  | keepValue {world : World} (ref : EntryRef) (name : String) (provider : ProviderRef)
      (value : Value) : Move allowed world (world.keepValue ref name provider value)
  | addConsumers {world : World} (entry : EntryRef) (module : ModuleRef)
      (consumers : Table Consumer) (key : Option String) (spaces : List NamespaceRef)
      (h : Program.Confined allowed (Consumer.linesOf consumers)) :
      Move allowed world (world.addConsumers entry module consumers key spaces)
  | writeThrough {world : World} (batch : BatchRef) (name : String) (value : Value)
      (hactive : (world.batch batch).isActive = true) :
      Move allowed world (world.writeThrough batch name value)
  | handOver {world : World} (batch : BatchRef) (slot name : String) (value : Value)
      (hactive : (world.batch batch).isActive = true)
      (hnew : ∀ last, world.seen? batch slot name = some last → value.same last = false) :
      Move allowed world (world.handOver batch slot name value)

namespace World.Confined

variable {before after : World}

/-- A change that concerns neither the host nor providers nor batches. -/
theorem of_parts (h : before.Confined allowed) (hhost : after.host = before.host)
    (hproviders : after.providers = before.providers) (hbatches : after.batches = before.batches) :
    after.Confined allowed where
  bodies := by
    rw [hhost]
    exact h.bodies
  providers ref := by
    unfold World.provider
    rw [hproviders]
    exact h.providers ref
  consumers ref := by
    unfold World.batch
    rw [hbatches]
    exact h.consumers ref

/-- A change that leaves everything registered as it is. -/
theorem keeps (h : before.Confined allowed) (hkeeps : before.Keeps after) :
    after.Confined allowed where
  bodies := by
    rw [hkeeps.host]
    exact h.bodies
  providers ref := by
    rw [hkeeps.source]
    exact h.providers ref
  consumers ref := by
    rw [hkeeps.consumers]
    exact h.consumers ref

theorem newProvider (h : before.Confined allowed) {source : Source}
    (hsource : Program.Confined allowed source.lines) :
    (before.newProvider source).2.Confined allowed where
  bodies := h.bodies
  providers ref := by
    have hprovider : (before.newProvider source).2.provider ref =
        if ref.index = before.providers.size then ⟨source, 0⟩ else before.provider ref :=
      Store.get_add _ _ _
    rw [hprovider]
    split
    · exact hsource
    · exact h.providers ref
  consumers := h.consumers

theorem addConsumers (h : before.Confined allowed) (entry : EntryRef) (module : ModuleRef)
    {consumers : Table Consumer} (key : Option String) (spaces : List NamespaceRef)
    (hconsumers : Program.Confined allowed (Consumer.linesOf consumers)) :
    (before.addConsumers entry module consumers key spaces).Confined allowed := by
  have hrenewed := before.renewed_addConsumers entry module consumers key spaces
  constructor
  · rw [hrenewed.rest]
    exact h.bodies
  · intro ref
    rw [hrenewed.rest]
    exact h.providers ref
  · intro ref
    by_cases hnew : ref.index = before.batches.size
    · obtain rfl : ref = ⟨before.batches.size⟩ := by
        cases ref
        exact congrArg BatchRef.mk hnew
      rw [hrenewed.added]
      exact hconsumers
    · rw [hrenewed.same ref hnew]
      exact h.consumers ref

end World.Confined

/-- A move keeps a world confined. -/
theorem Move.confined {world after : World} (h : Move allowed world after)
    (hworld : world.Confined allowed) : after.Confined allowed := by
  cases h with
  | noted hnoted =>
    rw [hnoted]
    exact hworld.of_parts rfl rfl rfl
  | enable ref =>
    unfold World.enable
    split
    · exact hworld
    · exact hworld.of_parts rfl rfl rfl
  | entryFor space =>
    unfold World.entryFor
    split
    · exact hworld
    · exact hworld.of_parts rfl rfl rfl
  | settleOwner ref module =>
    unfold World.settleOwner
    split
    · exact hworld
    · exact hworld.of_parts rfl rfl rfl
  | newProvider source hsource => exact hworld.newProvider hsource
  | noteCall ref => exact hworld.keeps (world.asked_noteCall ref).toKeeps
  | addConsumers entry module consumers key spaces hconsumers =>
    exact hworld.addConsumers entry module key spaces hconsumers
  | writeThrough batch name value => exact hworld.keeps (world.keeps_writeThrough batch name value)
  | handOver batch slot name value => exact hworld.keeps (world.keeps_handOver batch slot name value)
  | _ => exact hworld.of_parts rfl rfl rfl

end ModuleLinkage.Ledger
