import Mathlib.Data.List.Nodup
import ModuleLinkage.Proofs.Ledger.Reentry.Outlet

/-!
# Consumers that keep an outlet up to date

An outlet is attached to the world (`Outlet.Attached`) if its provider serves only its entry, if
nothing but the rounds over the entry writes the exported name into the entry's namespace, and if all
consumers behave: whoever assigns the exported variable begins a round over the entry afterwards
(`Outlet.Follows`), as lowered code does right after each assignment. All of this is about what is
registered, so it stays true while values are delivered (`Outlet.Attached.keeps`). The steps of which
deliveries consist each move an attached world within `Outlet.Relay`.
-/

set_option autoImplicit false

namespace ModuleLinkage.Ledger

variable {outlet : Outlet} {scope : Scope} {world first second : World}

/-! ### The lines of consumers -/

/-- A command that assigns a variable. -/
def Command.Assigns (command : Command) (world : World) (binding : BindingRef) : Prop :=
  ∃ name term, command = .setBinding name term ∧ world.names.bindings.get? name = some binding

/-- A command that begins a round over an entry. -/
def Command.Shows (command : Command) (world : World) (scope : Scope) (entry : EntryRef) : Prop :=
  ∃ name term id module, command = .propagate name term ∧ (name <|> scope.current) = some id ∧
    world.names.modules.get? id = some module ∧
      (world.space (world.module module).exports).entry = some entry

/-- Lines that assign variables and begin rounds, and after each assignment to the exported variable
begin one over the entry. -/
structure Outlet.Follows (outlet : Outlet) (world : World) (scope : Scope) (lines : Program) :
    Prop where
  commands : ∀ line ∈ lines, (∃ name term, line.command = .setBinding name term) ∨
    ∃ entry, line.command.Shows world scope entry
  shown : ∀ before line later, lines = before ++ line :: later →
    line.command.Assigns world outlet.binding →
      ∃ other ∈ later, other.command.Shows world scope outlet.entry

theorem Command.Shows.keeps {command : Command} {entry : EntryRef} (h : first.Keeps second) :
    command.Shows second scope entry ↔ command.Shows first scope entry := by
  unfold Command.Shows
  simp only [h.moduleNames, h.module, h.entryOf]

theorem Command.Shows.unique {command : Command} {entry other : EntryRef}
    (h : command.Shows world scope entry) (h' : command.Shows world scope other) :
    entry = other := by
  obtain ⟨name, term, id, module, rfl, hname, hmodule, hentry⟩ := h
  obtain ⟨_, _, _, _, heq, hname', hmodule', hentry'⟩ := h'
  cases heq
  rw [hname] at hname'
  cases hname'
  rw [hmodule] at hmodule'
  cases hmodule'
  rw [hentry] at hentry'
  exact Option.some.inj hentry'

/-- A variable that existed is assigned by the same commands as before. -/
theorem Command.Assigns.of_keeps {command : Command} {binding : BindingRef}
    (hkeeps : first.Keeps second) (hlt : binding.index < first.bindings.size)
    (h : command.Assigns second binding) : command.Assigns first binding := by
  obtain ⟨name, term, rfl, hname⟩ := h
  refine ⟨name, term, rfl, ?_⟩
  rcases hkeeps.bindingNew hname with hname | hnew
  · exact hname
  · omega

theorem Outlet.Follows.tail {line : Line} {rest : Program}
    (h : outlet.Follows world scope (line :: rest)) : outlet.Follows world scope rest where
  commands other hother := h.commands other (List.mem_cons_of_mem _ hother)
  shown before other later hlines := h.shown (line :: before) other later (by rw [hlines]; rfl)

theorem Outlet.Follows.keeps {lines : Program} (hkeeps : first.Keeps second)
    (hlt : outlet.binding.index < first.bindings.size) (h : outlet.Follows first scope lines) :
    outlet.Follows second scope lines where
  commands line hline := by
    simp only [Command.Shows.keeps hkeeps]
    exact h.commands line hline
  shown before line later hlines hassigns := by
    simp only [Command.Shows.keeps hkeeps]
    exact h.shown before line later hlines (hassigns.of_keeps hkeeps hlt)

/-- What lines have received does not matter to what they do. -/
theorem Outlet.Follows.receiving {lines : Program} (h : outlet.Follows world scope lines)
    (received : Option (Value × String)) :
    outlet.Follows world { scope with received := received } lines where
  commands := h.commands
  shown := h.shown

/-! ### Attached outlets -/

/-- A consumer that leaves the outlet up to date. -/
def Outlet.Accepts (outlet : Outlet) (world : World) : Consumer → Prop
  | .assign binding => binding ≠ outlet.binding
  | .copyInto space => space ≠ (world.entry outlet.entry).space ∧
      space ∉ (world.batch outlet.batch).spaces
  | .callback _ lines scope => outlet.Follows world scope lines

/-- The outlet is registered, and all that is registered besides leaves it up to date. -/
structure Outlet.Attached (outlet : Outlet) (world : World) : Prop where
  exported : (outlet.name, outlet.provider, false) ∈ (world.entry outlet.entry).exported
  names : ((world.entry outlet.entry).exported.map (·.1)).Nodup
  source : (world.provider outlet.provider).source = .binding outlet.binding
  batch_mem : outlet.batch ∈ (world.entry outlet.entry).batches
  concerned : outlet.slot ∈ ((world.batch outlet.batch).concerned outlet.name).map (·.1)
  binding_lt : outlet.binding.index < world.bindings.size
  batch_lt : outlet.batch.index < world.batches.size
  space_lt : (world.entry outlet.entry).space.index < world.spaces.size
  listed_lt : ∀ space ∈ (world.batch outlet.batch).spaces, space.index < world.spaces.size
  /-- No other entry has the provider, writes into the same namespace, or into a listed one. -/
  other_entry : ∀ entry ≠ outlet.entry, ∀ row ∈ (world.entry entry).exported,
    row.2.1 ≠ outlet.provider ∧ (world.entry entry).space ≠ (world.entry outlet.entry).space
  not_listed : ∀ entry, (world.entry entry).exported ≠ [] →
    (world.entry entry).space ∉ (world.batch outlet.batch).spaces
  /-- No batch lists the entry's namespace, and no other batch the ones listed here. -/
  other_batch : ∀ batch, ∀ space ∈ (world.batch batch).spaces,
    space ≠ (world.entry outlet.entry).space ∧
      (batch ≠ outlet.batch → space ∉ (world.batch outlet.batch).spaces)
  plain : ∀ ref, (world.provider ref).source.isPlain = true
  active : ∀ entry, ∀ batch ∈ (world.entry entry).batches, (world.batch batch).isActive = true
  accepts : ∀ batch, ∀ row ∈ (world.batch batch).consumers.rows, outlet.Accepts world row.2

namespace Outlet

theorem Accepts.keeps {consumer : Consumer} (hkeeps : first.Keeps second)
    (hlt : outlet.binding.index < first.bindings.size) (h : outlet.Accepts first consumer) :
    outlet.Accepts second consumer := by
  cases consumer with
  | assign binding => exact h
  | copyInto space =>
    unfold Accepts
    rw [hkeeps.spaceOf, hkeeps.spaces]
    exact h
  | callback label lines scope => exact Follows.keeps hkeeps hlt h

theorem Attached.keeps (hkeeps : first.Keeps second) (h : outlet.Attached first) :
    outlet.Attached second where
  exported := by
    rw [hkeeps.exported]
    exact h.exported
  names := by
    rw [hkeeps.exported]
    exact h.names
  source := (hkeeps.source _).trans h.source
  batch_mem := by
    rw [hkeeps.batches]
    exact h.batch_mem
  concerned := by
    rw [hkeeps.concerned]
    exact h.concerned
  binding_lt := Nat.lt_of_lt_of_le h.binding_lt hkeeps.bindingCount
  batch_lt := Nat.lt_of_lt_of_eq h.batch_lt hkeeps.batchCount.symm
  space_lt := by
    rw [hkeeps.spaceOf, hkeeps.spaceCount]
    exact h.space_lt
  listed_lt := by
    rw [hkeeps.spaces, hkeeps.spaceCount]
    exact h.listed_lt
  other_entry entry hentry row hrow := by
    rw [hkeeps.exported] at hrow
    rw [hkeeps.spaceOf, hkeeps.spaceOf]
    exact h.other_entry entry hentry row hrow
  not_listed entry := by
    rw [hkeeps.exported, hkeeps.spaceOf, hkeeps.spaces]
    exact h.not_listed entry
  other_batch batch space := by
    rw [hkeeps.spaces, hkeeps.spaces, hkeeps.spaceOf]
    exact h.other_batch batch space
  plain ref := by
    rw [hkeeps.source]
    exact h.plain ref
  active entry batch hbatch := by
    rw [hkeeps.batches] at hbatch
    rw [hkeeps.isActive]
    exact h.active entry batch hbatch
  accepts batch row hrow := by
    rw [hkeeps.consumers] at hrow
    exact (h.accepts batch row hrow).keeps hkeeps h.binding_lt

/-! ### Steps of a round -/

/-- An assignment to another variable. -/
theorem relay_setBinding {ref : BindingRef} (href : ref ≠ outlet.binding) (value : Value) :
    outlet.Relay world (world.setBinding ref value) := by
  refine (world.keeps_setBinding ref value).relay (List.nil_append _).symm (by simp) rfl ?_ rfl
    fun _ _ => rfl
  unfold current
  rw [World.binding_setBinding, if_neg fun h => href h.1.symm]

/-- A value copied into a namespace that is neither the entry's nor listed. -/
theorem relay_setMember {space : NamespaceRef}
    (hspace : space ≠ (world.entry outlet.entry).space ∧
      space ∉ (world.batch outlet.batch).spaces) (name : String) (value : Value) :
    outlet.Relay world (world.setMember space name value) := by
  have hkeeps := world.keeps_setMember space name value
  refine hkeeps.relay (List.nil_append _).symm (by simp) rfl rfl ?_ fun other hother => ?_
  · unfold shown
    rw [hkeeps.spaceOf, World.member?_setMember, if_neg fun h => hspace.1 h.1.symm]
  · rw [World.member?_setMember, if_neg]
    rintro ⟨rfl, -⟩
    exact hspace.2 (outlet.listed_subset world hother)

/-- A round over another entry begins. -/
theorem Attached.relay_refreshed (h : outlet.Attached world) {entry : EntryRef}
    (hentry : entry ≠ outlet.entry) {after : World}
    (hrefreshed : world.Refreshed (world.entry entry).space
      (world.roundValues (world.entry entry).slots.rows) after)
    (hpolled : world.Polled (world.entry entry).slots.rows after) :
    outlet.Relay world after := by
  obtain ⟨refs, hcalls, hrefs, -⟩ := hpolled
  have hrow {row : String × Slot} (hmem : row ∈ (world.entry entry).slots.rows) :
      (row.1, row.2.provider, row.2.isConstant) ∈ (world.entry entry).exported :=
    List.mem_map_of_mem (f := fun row : String × Slot =>
      (row.1, row.2.provider, row.2.isConstant)) hmem
  -- Without slots nothing is written; with slots, the namespace is another one.
  have hmember {space : NamespaceRef} (hspace : (world.entry entry).exported ≠ [] →
      space ≠ (world.entry entry).space) (name : String) :
      after.member? space name = world.member? space name := by
    by_cases hsame : space = (world.entry entry).space
    · have hnone : (world.entry entry).slots.rows = [] := by
        by_cases hrows : (world.entry entry).slots.rows = []
        · exact hrows
        · exact absurd hsame (hspace (by simpa [Entry.exported] using hrows))
      rw [hsame]
      refine hrefreshed.otherName ?_
      simp [World.roundValues, hnone]
    · exact hrefreshed.otherSpace hsame name
  refine hrefreshed.toKeeps.relay hcalls ?_ ?_ (hrefreshed.binding _) ?_ ?_
  · intro call hcall
    obtain ⟨ref, href, rfl⟩ := List.mem_map.mp hcall
    obtain ⟨row, hmem, hprovider⟩ := hrefs ref href
    have hother := (h.other_entry entry hentry _ (hrow hmem)).1
    exact ⟨by simpa [Callback.asks, ← hprovider] using hother, rfl⟩
  · simp only [seen, World.seen?, hrefreshed.batch]
  · unfold shown
    rw [hrefreshed.spaceOf]
    refine hmember (fun hexported => ?_) outlet.name
    obtain ⟨row, hmem⟩ := List.exists_mem_of_ne_nil _ hexported
    exact (h.other_entry entry hentry row hmem).2.symm
  · intro space hspace
    refine hmember (fun hexported hsame => ?_) outlet.name
    exact h.not_listed entry hexported (hsame ▸ outlet.listed_subset world hspace)

/-- The values of a round over the entry itself. -/
theorem Attached.mem_roundValues (h : outlet.Attached world) {value : Value}
    (hcurrent : outlet.current world = some value) :
    (outlet.name, value) ∈ world.roundValues (world.entry outlet.entry).slots.rows := by
  obtain ⟨row, hrow, hexported⟩ := List.mem_map.mp h.exported
  simp only [Prod.mk.injEq] at hexported
  obtain ⟨hname, hprovider, hconstant⟩ := hexported
  unfold World.roundValues
  rw [List.mem_filterMap]
  refine ⟨row, hrow, ?_⟩
  have hyielded : world.yielded? outlet.provider = some value := by
    unfold World.yielded? World.sourceValue?
    rw [h.source]
    exact hcurrent
  simp [World.slotValue?, hname, hprovider, hconstant, hyielded]

/-- What a round over the entry delivers under the name is what the variable holds. -/
theorem Attached.current_of_mem_roundValues (h : outlet.Attached world) {value : Value}
    (hmem : (outlet.name, value) ∈ world.roundValues (world.entry outlet.entry).slots.rows) :
    outlet.current world = some value := by
  unfold World.roundValues at hmem
  obtain ⟨row, hrow, hvalue⟩ := List.mem_filterMap.mp hmem
  obtain ⟨found, hfound, hpair⟩ := Option.map_eq_some_iff.mp hvalue
  obtain ⟨hname, rfl⟩ := Prod.mk.inj hpair
  have hexported : (row.1, row.2.provider, row.2.isConstant) ∈
      (world.entry outlet.entry).exported :=
    List.mem_map_of_mem (f := fun row : String × Slot =>
      (row.1, row.2.provider, row.2.isConstant)) hrow
  have hsame := List.inj_on_of_nodup_map h.names hexported h.exported hname
  simp only [Prod.mk.injEq] at hsame
  obtain ⟨-, hprovider, hconstant⟩ := hsame
  unfold World.slotValue? World.yielded? World.sourceValue? at hfound
  rw [hconstant, hprovider, h.source] at hfound
  exact hfound

/-- The names of the values of a round are different. -/
theorem Attached.nodup_roundValues (h : outlet.Attached world) :
    ((world.roundValues (world.entry outlet.entry).slots.rows).map (·.1)).Nodup := by
  have hsublist : List.Sublist
      ((world.roundValues (world.entry outlet.entry).slots.rows).map (·.1))
      ((world.entry outlet.entry).exported.map (·.1)) := by
    unfold World.roundValues Entry.exported
    rw [List.map_map]
    induction (world.entry outlet.entry).slots.rows with
    | nil => exact .slnil
    | cons row rest ih =>
      cases hvalue : world.slotValue? row.2 with
      | none => simpa [hvalue] using ih.cons row.1
      | some value => simpa [hvalue] using ih.cons_cons row.1
  exact h.names.sublist hsublist

/-- What has happened when a round over the entry has asked the providers: the namespace shows what
the variable holds, and nothing has been handed since. -/
structure Begun (outlet : Outlet) (before after : World) : Prop
    extends World.Keeps before after where
  current : outlet.current after = outlet.current before
  records : ∃ newer, outlet.Records newer before after
  lists : outlet.Lists before → outlet.Lists after
  shown : ∀ value, outlet.current after = some value → outlet.shown after = some value

theorem Attached.begun (h : outlet.Attached world) {after : World}
    (hrefreshed : world.Refreshed (world.entry outlet.entry).space
      (world.roundValues (world.entry outlet.entry).slots.rows) after)
    (hpolled : world.Polled (world.entry outlet.entry).slots.rows after) :
    outlet.Begun world after := by
  obtain ⟨refs, hcalls, -⟩ := hpolled
  have hseen : outlet.seen after = outlet.seen world := by
    simp only [seen, World.seen?, hrefreshed.batch]
  refine
    { toKeeps := hrefreshed.toKeeps
      current := hrefreshed.binding _
      records := ⟨refs.map .provider, hcalls, ?_⟩
      lists := hrefreshed.toKeeps.lists hseen fun space hspace => ?_
      shown := fun value hvalue => ?_ }
  · rw [lastHanded?_providers, Option.none_or, hseen]
  · refine hrefreshed.otherSpace (fun hsame => ?_) _
    exact h.not_listed outlet.entry (List.ne_nil_of_mem h.exported)
      (hsame ▸ outlet.listed_subset world hspace)
  · have hbefore : outlet.current world = some value := (hrefreshed.binding _).symm.trans hvalue
    unfold Outlet.shown
    rw [hrefreshed.spaceOf]
    exact hrefreshed.shown h.space_lt h.nodup_roundValues (h.mem_roundValues hbefore)

/-- A value is noted as seen, by the outlet's consumer or another one. What is asked of the outlet's
own consumer is that the listed namespaces show the value already. -/
theorem Attached.relay_handOver (h : outlet.Attached world) {batch : BatchRef} {slot name : String}
    {value : Value}
    (hlisted : batch = outlet.batch → slot = outlet.slot → name = outlet.name →
      ∀ space ∈ outlet.listed world, world.member? space outlet.name = some value) :
    outlet.Relay world (world.handOver batch slot name value) := by
  have hkeeps := world.keeps_handOver batch slot name value
  have hseen : outlet.seen (world.handOver batch slot name value) =
      (outlet.handed? (.consumer batch slot name value)).or (outlet.seen world) := by
    unfold seen
    rw [World.seen?_handOver]
    by_cases hours : batch = outlet.batch ∧ slot = outlet.slot ∧ name = outlet.name
    · obtain ⟨rfl, rfl, rfl⟩ := hours
      simp [handed?, h.batch_lt]
    · have hnone : outlet.handed? (.consumer batch slot name value) = none := if_neg hours
      rw [hnone, Option.none_or, if_neg]
      rintro ⟨hbatch, -, hslot, hname⟩
      exact hours ⟨hbatch.symm, hslot.symm, hname.symm⟩
  refine .of_quiet hkeeps ⟨rfl, ?_, [.consumer batch slot name value], ⟨rfl, ?_⟩, by simp [Callback.asks]⟩ ?_
  · unfold shown
    rw [hkeeps.spaceOf]
    rfl
  · rw [hseen]
    simp [lastHanded?]
  · intro hlists space hspace
    rw [hkeeps.listed] at hspace
    change world.member? space outlet.name = _
    rw [hseen]
    by_cases hours : batch = outlet.batch ∧ slot = outlet.slot ∧ name = outlet.name
    · rw [hlisted hours.1 hours.2.1 hours.2.2 space hspace]
      simp [handed?, hours]
    · simp only [handed?, hours, if_false, Option.none_or]
      exact hlists space hspace

/-- A value is written into the namespaces listed with a batch. -/
theorem Attached.quiet_writeThrough (h : outlet.Attached world) (batch : BatchRef) (name : String)
    (value : Value) : outlet.Quiet world (world.writeThrough batch name value) := by
  have hkeeps := world.keeps_writeThrough batch name value
  refine ⟨world.binding_writeThrough .., ?_, [], ⟨world.calls_writeThrough .., ?_⟩, by simp⟩
  · unfold shown
    rw [hkeeps.spaceOf, World.member?_writeThrough, if_neg]
    rintro ⟨hspace, -⟩
    exact (h.other_batch batch _ hspace).1 rfl
  · exact world.seen?_writeThrough ..

/-- Values of other names, and those of other batches, are not written into the listed namespaces. -/
theorem Attached.lists_writeThrough (h : outlet.Attached world) {batch : BatchRef} {name : String}
    (value : Value)
    (hother : batch = outlet.batch → name = outlet.name → outlet.listed world = [])
    (hlists : outlet.Lists world) : outlet.Lists (world.writeThrough batch name value) := by
  have hkeeps := world.keeps_writeThrough batch name value
  refine hkeeps.lists (world.seen?_writeThrough ..) (fun space hspace => ?_) hlists
  rw [World.member?_writeThrough, if_neg]
  rintro ⟨hmem, -, hname⟩
  by_cases hbatch : batch = outlet.batch
  · rw [hother hbatch hname.symm] at hspace
    cases hspace
  · exact (h.other_batch batch space hmem).2 hbatch (outlet.listed_subset world hspace)

/-- A value of the outlet's name is written into its listed namespaces. -/
theorem Attached.member?_writeThrough (h : outlet.Attached world) (value : Value)
    {space : NamespaceRef} (hspace : space ∈ outlet.listed world) :
    (world.writeThrough outlet.batch outlet.name value).member? space outlet.name = some value := by
  have hmem := outlet.listed_subset world hspace
  rw [World.member?_writeThrough, if_pos ⟨hmem, h.listed_lt space hmem, rfl⟩]

end Outlet

end ModuleLinkage.Ledger
