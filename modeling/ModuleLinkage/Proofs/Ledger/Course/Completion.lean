import ModuleLinkage.Proofs.Ledger.Course.Stages

/-!
# Completion is gated by the owner of an entry

An entry is loaded once its module has run and its importers have been shown its values. Several modules
may show one namespace, and so share its entry; which of them decides is settled by the entry's owner.

Two things are shown of every run whose programs do not mark entries by hand (`Command.Links`), in
whatever order they claim entries, point exports elsewhere, load modules and fail. The owner of an entry
stays its owner as long as that module exists (`Step.owner`). An entry that is loaded stays so, and it
becomes so only when a call that shows the values of a loaded module returns, after its round has
succeeded and while the module owns the entry (`Step.marks`).
-/

set_option autoImplicit false

namespace ModuleLinkage.Ledger

/-- Every command links modules but the one that marks an entry by hand. -/
def Command.Links (command : Command) : Prop :=
  ∀ term, command ≠ .markLoaded term

variable {allowed : Command → Prop} {world after : World}

namespace World

theorem entries_writeThrough (world : World) (ref : BatchRef) (name : String) (value : Value) :
    (world.writeThrough ref name value).entries = world.entries := by
  have hfold (spaces : List NamespaceRef) (before : World) :
      (spaces.foldl (fun world space => world.setMember space name value) before).entries =
        before.entries := by
    induction spaces generalizing before with
    | nil => rfl
    | cons space rest ih => exact ih _
  rcases world.writeThrough_cases ref name value with ⟨-, h⟩ | h <;> rw [h]
  exact hfold _ world

/-- Who owns entries and which of them are loaded is the same. -/
def SameMarks (before after : World) : Prop :=
  ∀ ref, (after.entry ref).owner = (before.entry ref).owner ∧
    (after.entry ref).isLoaded = (before.entry ref).isLoaded

theorem SameMarks.of_entries (h : after.entries = world.entries) : world.SameMarks after := by
  intro ref
  unfold entry
  rw [h]
  exact ⟨rfl, rfl⟩

theorem sameMarks_updateEntry (world : World) (ref : EntryRef) {change : Entry → Entry}
    (howner : ∀ entry, (change entry).owner = entry.owner)
    (hloaded : ∀ entry, (change entry).isLoaded = entry.isLoaded) :
    world.SameMarks (world.updateEntry ref change) :=
  fun _ => ⟨Store.proj_get_update _ _ _ Entry.owner howner,
    Store.proj_get_update _ _ _ Entry.isLoaded hloaded⟩

/-- A new entry has no owner and is not loaded. -/
theorem sameMarks_entryFor (world : World) (space : NamespaceRef) :
    world.SameMarks (world.entryFor space).2 := by
  unfold entryFor
  split
  · exact fun _ => ⟨rfl, rfl⟩
  · intro ref
    have hentry : (world.newEntry space).2.entry ref =
        if ref.index = world.entries.size then ⟨space, none, false, .empty, []⟩
        else world.entry ref := Store.get_add _ _ _
    change ((world.newEntry space).2.entry ref).owner = _ ∧
      ((world.newEntry space).2.entry ref).isLoaded = _
    rw [hentry]
    split
    · next hnew =>
      rw [world.entry_of_size_le (Nat.le_of_eq hnew.symm)]
      exact ⟨rfl, rfl⟩
    · exact ⟨rfl, rfl⟩

end World

/-- A move changes neither who owns entries nor which of them are loaded, unless it settles an owner or
marks an entry by hand. -/
theorem Move.marks_cases (h : Move allowed world after) :
    world.SameMarks after ∨ (∃ ref module, after = world.settleOwner ref module) ∨
      ∃ ref term, allowed (.markLoaded term) ∧ after = world.markLoaded ref := by
  cases h with
  | noted hnoted =>
    rw [hnoted]
    exact .inl (.of_entries rfl)
  | enable module =>
    unfold World.enable
    split <;> exact .inl (.of_entries rfl)
  | entryFor space => exact .inl (world.sameMarks_entryFor space)
  | settleOwner ref module => exact .inr (.inl ⟨ref, module, rfl⟩)
  | markLoaded ref hmark =>
    obtain ⟨term, hterm⟩ := hmark
    exact .inr (.inr ⟨ref, term, hterm, rfl⟩)
  | addProviders ref providers isConstant =>
    exact .inl (world.sameMarks_updateEntry ref (fun _ => rfl) fun _ => rfl)
  | keepValue ref name provider value =>
    refine .inl (world.sameMarks_updateEntry ref (fun entry => ?_) fun entry => ?_) <;>
      · split
        · split <;> rfl
        · rfl
  | addConsumers entry module consumers key spaces =>
    refine .inl fun ref => ?_
    rw [(world.renewed_addConsumers entry module consumers key spaces).entries ref]
    exact ⟨rfl, rfl⟩
  | writeThrough batch name value => exact .inl (.of_entries (world.entries_writeThrough ..))
  | _ => exact .inl (.of_entries rfl)

theorem World.entry_markLoaded (world : World) (ref other : EntryRef) :
    (world.markLoaded ref).entry other =
      if other = ref ∧ ref.index < world.entries.size then
        { world.entry ref with isLoaded := true } else world.entry other :=
  world.entry_updateEntry ref _ other

theorem World.owner_markLoaded (world : World) (ref other : EntryRef) :
    ((world.markLoaded ref).entry other).owner = (world.entry other).owner :=
  Store.proj_get_update _ _ _ Entry.owner fun _ => rfl

/-! ### Owners -/

/-- An owner is settled only where there is none that still exists. -/
theorem World.owner_settleOwner {ref other : EntryRef} {module owner : ModuleRef}
    (h : (world.entry other).owner = some owner) (halive : world.isAlive owner = true) :
    ((world.settleOwner ref module).entry other).owner = some owner := by
  unfold World.settleOwner
  split
  · exact h
  · next hfree =>
    rw [World.entry_updateEntry]
    split
    · next hother =>
      obtain ⟨rfl, -⟩ := hother
      rw [World.ownerOf?, h, Option.filter_some_pos halive] at hfree
      cases hfree
    · exact h

/-- The owner of an entry stays its owner while it exists. -/
theorem Step.owner {past : List World} (hstep : Step allowed past world after) {entry : EntryRef}
    {owner : ModuleRef} (h : (world.entry entry).owner = some owner)
    (halive : world.isAlive owner = true) : (after.entry entry).owner = some owner := by
  cases hstep with
  | moved hmove =>
    rcases hmove.marks_cases with hsame | ⟨ref, module, rfl⟩ | ⟨ref, term, -, rfl⟩
    · rw [(hsame entry).1, h]
    · exact World.owner_settleOwner h halive
    · rw [World.owner_markLoaded, h]
  | completed =>
    rw [World.owner_markLoaded, h]

/-! ### Marks -/

theorem World.isLoaded_settleOwner (world : World) (ref other : EntryRef) (module : ModuleRef) :
    ((world.settleOwner ref module).entry other).isLoaded = (world.entry other).isLoaded := by
  unfold World.settleOwner
  split
  · rfl
  · exact Store.proj_get_update _ _ _ Entry.isLoaded fun _ => rfl

/-- An entry that is loaded stays so. -/
theorem Step.lasting {past : List World} (hstep : Step allowed past world after) {entry : EntryRef}
    (h : (world.entry entry).isLoaded = true) : (after.entry entry).isLoaded = true := by
  have hmarked (ref : EntryRef) : ((world.markLoaded ref).entry entry).isLoaded = true := by
    rw [World.entry_markLoaded]
    split
    · rfl
    · exact h
  cases hstep with
  | moved hmove =>
    rcases hmove.marks_cases with hsame | ⟨ref, module, rfl⟩ | ⟨ref, term, -, rfl⟩
    · rw [(hsame entry).2, h]
    · rw [World.isLoaded_settleOwner, h]
    · exact hmarked ref
  | completed => exact hmarked _

/-- An entry becomes loaded only at the end of a call that shows a module's values. -/
theorem Step.marks {past : List World} (hstep : Step Command.Links past world after)
    {entry : EntryRef} (hbefore : (world.entry entry).isLoaded = false)
    (hafter : (after.entry entry).isLoaded = true) :
    after = world.markLoaded entry ∧ ∃ (depth : Nat) (module : ModuleRef) (called rounded : World)
      (before between : List World), Completing (runner depth) module called rounded entry world ∧
        called :: before <:+ rounded :: between ∧ rounded :: between <:+ world :: past := by
  cases hstep with
  | moved hmove =>
    exfalso
    rcases hmove.marks_cases with hsame | ⟨ref, module, rfl⟩ | ⟨ref, term, hterm, -⟩
    · rw [(hsame entry).2, hbefore] at hafter
      cases hafter
    · rw [World.isLoaded_settleOwner, hbefore] at hafter
      cases hafter
    · exact hterm term rfl
  | @completed depth module called rounded marked before between hcompleting hcalled hrounded =>
    rw [World.entry_markLoaded] at hafter
    split at hafter
    · next hentry =>
      obtain ⟨rfl, -⟩ := hentry
      exact ⟨rfl, depth, module, called, rounded, before, between, hcompleting, hcalled, hrounded⟩
    · rw [hbefore] at hafter
      cases hafter

theorem World.modules_ownedEntryFor (world : World) (space : NamespaceRef) (module : ModuleRef) :
    (world.ownedEntryFor space module).2.modules = world.modules := by
  have hentry : (world.entryFor space).2.modules = world.modules := by
    unfold World.entryFor
    split <;> rfl
  unfold World.ownedEntryFor World.settleOwner
  dsimp only
  split <;> exact hentry

/-- The module whose values are shown is loaded when the entry is marked. -/
theorem Completing.isLoaded {run : Runner} {module : ModuleRef} {called rounded : World}
    {entry : EntryRef} (h : Completing run module called rounded entry world) :
    (world.module module).isLoaded = true := by
  have hmodules := rounded.modules_ownedEntryFor (called.module module).exports module
  rw [h.claims] at hmodules
  have hmodule : world.module module = rounded.module module :=
    congrArg (Store.get · module.index) hmodules
  rw [hmodule]
  exact h.loaded

/-- The call returns the world in which it has marked the entry. -/
theorem Completing.outcome {run : Runner} {module : ModuleRef} {called rounded : World}
    {entry : EntryRef} (h : Completing run module called rounded entry world) :
    (propagateExports run module).outcome called = (.ok (), world.markLoaded entry) := by
  simp [propagateExports, Effect.outcome_bind, h.round, h.loaded, h.claims, h.owned]

/-! ### The result -/

/-- What becomes of owners and marks in the worlds that a run passes. -/
structure Gated (stages : List World) : Prop where
  /-- The owner of an entry changes only after that module has ceased to exist. -/
  stable : ∀ {earlier later : World} {before between : List World},
    later :: between <:+ stages → earlier :: before <:+ later :: between →
    ∀ entry owner, (earlier.entry entry).owner = some owner →
      (later.entry entry).owner ≠ some owner →
      ∃ next world rest, next :: world :: rest <:+ later :: between ∧
        earlier :: before <:+ world :: rest ∧ (world.entry entry).owner = some owner ∧
        (next.entry entry).owner ≠ some owner ∧ world.isAlive owner = false
  /-- An entry that is loaded stays so. -/
  lasting : ∀ {earlier later : World} {before between : List World},
    later :: between <:+ stages → earlier :: before <:+ later :: between →
    ∀ entry, (earlier.entry entry).isLoaded = true → (later.entry entry).isLoaded = true
  /-- An entry becomes loaded only when a call that shows the values of a module returns: the round with
  which the call began has succeeded, and the module is loaded and owns the entry. -/
  gate : ∀ {earlier later : World} {before between : List World},
    later :: between <:+ stages → earlier :: before <:+ later :: between →
    ∀ entry, (earlier.entry entry).isLoaded = false → (later.entry entry).isLoaded = true →
      ∃ (world : World) (rest : List World) (depth : Nat) (module : ModuleRef)
        (called rounded : World) (beforeCall beforeEnd : List World),
        world.markLoaded entry :: world :: rest <:+ later :: between ∧
        earlier :: before <:+ world :: rest ∧
        called :: beforeCall <:+ rounded :: beforeEnd ∧ rounded :: beforeEnd <:+ world :: rest ∧
        (propagateFrom (runner depth) (called.module module).exports).outcome called =
          (.ok (), rounded) ∧
        (propagateExports (runner depth) module).outcome called =
          (.ok (), world.markLoaded entry) ∧
        (world.entry entry).isLoaded = false ∧ (world.entry entry).owner = some module ∧
        (world.module module).isLoaded = true
  /-- Whatever runs next goes on with the run. -/
  continues : ∀ world ∈ stages, world.Continues Command.Links

/-- **Completion is gated by a stable owner.** In every run in which no program marks entries by
hand: the owner of an entry stays so while it exists; an entry that is loaded stays so; and it
becomes so only at the end of a call that shows a module's values, once the round of that call has
succeeded, if the module is loaded and owns the entry. -/
theorem gated_of_course {host : Host}
    (hhost : ∀ row ∈ host.bodies.rows, Program.Confined Command.Links row.2) {stages : List World}
    (h : Course Command.Links (World.ofHost host) stages) : Gated stages := by
  constructor
  · intro earlier later before between hlater hearlier entry owner howner hchanged
    obtain ⟨next, world, rest, hnext, hbefore, howned, hlost⟩ :=
      exists_loss (fun world => (world.entry entry).owner = some owner) hearlier howner hchanged
    refine ⟨next, world, rest, hnext, hbefore, howned, hlost, Bool.eq_false_iff.mpr fun halive => ?_⟩
    exact hlost ((h.step_of_suffix (hnext.trans hlater)).owner howned halive)
  · intro earlier later before between hlater hearlier entry hloaded
    by_contra hnot
    obtain ⟨next, world, rest, hnext, -, hworld, hlost⟩ :=
      exists_loss (fun world => (world.entry entry).isLoaded = true) hearlier hloaded hnot
    exact hlost ((h.step_of_suffix (hnext.trans hlater)).lasting hworld)
  · intro earlier later before between hlater hearlier entry hnot hloaded
    obtain ⟨next, world, rest, hnext, hbefore, hworld, hmarked⟩ :=
      exists_loss (fun world => (world.entry entry).isLoaded = false) hearlier hnot
        (by rw [hloaded]; exact Bool.noConfusion)
    obtain ⟨rfl, depth, module, called, rounded, beforeCall, beforeEnd, hcompleting, hcalled,
      hrounded⟩ := (h.step_of_suffix (hnext.trans hlater)).marks hworld
        (by simpa using hmarked)
    exact ⟨world, rest, depth, module, called, rounded, beforeCall, beforeEnd, hnext, hbefore,
      hcalled, hrounded, hcompleting.round, hcompleting.outcome, hworld, hcompleting.owned,
      hcompleting.isLoaded⟩
  · intro world hworld
    have hstart := World.confined_ofHost hhost
    exact (h.invariant hstart Step.confined world hworld).continues

/-! ### An example -/

/-- A module shows the exports of another one, which has claimed them, and runs. -/
def bridging : Program :=
  [(Command.createModule "m" "m" true).line, (Command.createModule "b" "b" true).line,
   (Command.setExports (some "b") (.exportsOf "m")).line,
   (Command.provide (some "m") [(.fixed "x", .value (.text "value"))] false).line,
   (Command.evaluate (some "b") []).line]

/-- The world after that. -/
def bridged : World :=
  (World.ofHost default).afterwards 4 bridging

/-- The world after the owner of the exports has run, too. -/
def bridgedOwner : World :=
  bridged.afterwards 4 [(Command.evaluate (some "m") []).line]

theorem confined_bridging : Program.Confined Command.Links bridging ∧
    Program.Confined Command.Links [(Command.evaluate (some "m") []).line] := by
  constructor <;> simp [bridging, Program.confined_cons, Program.confined_nil, Command.confined_iff,
    Command.lines, Command.Links, ProviderTerm.lines]

/-- The result for a shared entry: it is not loaded when the module has run that only shows the exports,
and it is when their owner has. -/
theorem gated_bridged : ∃ stages rest,
    Course Command.Links (World.ofHost default) (bridgedOwner :: stages) ∧
    bridged :: rest <:+ bridgedOwner :: stages ∧ Gated (bridgedOwner :: stages) ∧
    (bridged.module ⟨1⟩).isLoaded = true ∧ (bridged.entry ⟨0⟩).owner = some ⟨0⟩ ∧
    (bridged.entry ⟨0⟩).isLoaded = false ∧ (bridgedOwner.entry ⟨0⟩).isLoaded = true := by
  have hhost : ∀ row ∈ (default : Host).bodies.rows, Program.Confined Command.Links row.2 :=
    fun _ h => absurd h List.not_mem_nil
  have hstart := World.confined_ofHost hhost
  have hbridged : World.GoesOn Command.Links (World.ofHost default) bridged :=
    hstart.continues.program 4 confined_bridging.1
  obtain ⟨rest, hrest, -⟩ := hbridged _ [] .start
  have howner : World.GoesOn Command.Links bridged bridgedOwner :=
    (hrest.confined hstart).continues.program 4 confined_bridging.2
  obtain ⟨stages, hstages, hsuffix⟩ := howner _ rest hrest
  exact ⟨stages, rest, hstages, hsuffix, gated_of_course hhost hstages, by decide +kernel,
    by decide +kernel, by decide +kernel, by decide +kernel⟩

end ModuleLinkage.Ledger
