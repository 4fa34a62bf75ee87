import ModuleLinkage.Proofs.Ledger.Delivery

/-!
# Rules for propagation rounds

A round first asks the providers of an entry and writes what they yield into the entry's namespace
(`meets_refreshSlots`), and then delivers the values to the batches one by one. The rule for the
second half (`Delivering.meets_deliverToBatches`) is stated for any preorder on worlds that says how
far the world may move while consumers run: if every single delivery stays within the preorder and
reaches its goal, and goals once reached stay reached, then the whole second half stays within the
preorder and reaches all goals.

Providers here are plain: they yield a fixed value or what a variable holds, so that asking them
runs no program.
-/

set_option autoImplicit false

namespace ModuleLinkage.Ledger

/-- Whether a provider yields a fixed value or what a variable holds. -/
def Source.isPlain : Source → Bool
  | .value _ => true
  | .binding _ => true
  | _ => false

/-- What a plain source yields. -/
def World.sourceValue? (world : World) : Source → Option Value
  | .value value => some value
  | .binding binding => world.binding binding
  | _ => none

/-- What a plain provider yields now. -/
def World.yielded? (world : World) (ref : ProviderRef) : Option Value :=
  world.sourceValue? (world.provider ref).source

/-- What a slot with a plain provider gives to a round: the value kept, or else what the provider
yields. -/
def World.slotValue? (world : World) (slot : Slot) : Option Value :=
  match slot.isConstant, slot.cached with
  | true, some value => some value
  | _, _ => world.yielded? slot.provider

/-- The values that a round over slots with plain providers delivers. -/
def World.roundValues (world : World) (slots : List (String × Slot)) : List (String × Value) :=
  slots.filterMap fun row => (world.slotValue? row.2).map (row.1, ·)

variable {run : Runner} {world : World} {allowed : Fault → Prop}

namespace World

variable {first second : World}

/-- Where variables hold the same and sources are the same, providers yield the same. -/
theorem yielded?_congr (hsource : ∀ ref, (second.provider ref).source = (first.provider ref).source)
    (hbinding : ∀ ref, second.binding ref = first.binding ref) (ref : ProviderRef) :
    second.yielded? ref = first.yielded? ref := by
  unfold yielded? sourceValue?
  rw [hsource]
  cases (first.provider ref).source with
  | binding binding => exact hbinding binding
  | value | counted | listed | failing | computed => rfl

end World

/-- Asking a plain provider gives what it yields. -/
theorem meets_ask {ref : ProviderRef} {post : Option Value → World → Prop}
    (hplain : (world.provider ref).source.isPlain = true)
    (h : ∀ after, world.Asked [ref] after → post (world.yielded? ref) after) :
    (ask run ref).Meets world post allowed := by
  have halike := World.asked_noteCall world ref
  have hsource := halike.source ref
  simp only [ask, Effect.meets_bind, Effect.meets_modifyGet, Effect.meets_get, hsource]
  unfold World.yielded? World.sourceValue? at h
  cases hprovider : (world.provider ref).source with
  | value value =>
    rw [hprovider] at h
    exact (Effect.meets_pure _).mpr (h _ halike)
  | binding binding =>
    rw [hprovider] at h
    simp only [Effect.meets_bind, Effect.meets_get, Effect.meets_pure, halike.binding]
    exact h _ halike
  | counted | listed | failing | computed => simp [hprovider, Source.isPlain] at hplain

/-- The value of a slot with a plain provider, which is called for it unless it is constant. -/
theorem meets_slot_value {slot : Slot} {post : Option Value → World → Prop}
    (hplain : (world.provider slot.provider).source.isPlain = true)
    (h : ∀ refs after, world.Asked refs after → (∀ ref ∈ refs, ref = slot.provider) →
      (slot.isConstant = false → slot.provider ∈ refs) → post (world.slotValue? slot) after) :
    (slot.value? run).Meets world post allowed := by
  unfold Slot.value?
  unfold World.slotValue? at h
  split
  · next value hconstant hcached =>
    rw [hconstant, hcached] at h
    refine (Effect.meets_pure _).mpr (h [] world (.refl world) (by simp) ?_)
    intro hfalse
    cases hfalse
  · next hother =>
    refine meets_ask hplain fun after hasked => ?_
    have hpost := h _ after hasked (by simp) (by simp)
    split at hpost
    · next value hconstant hcached => exact (hother value hconstant hcached).elim
    · exact hpost

/-- What asking the providers of some slots leaves: the world as it was, but for the namespace, which
shows the values yielded and else what it showed. -/
structure World.Refreshed (space : NamespaceRef) (values : List (String × Value))
    (before after : World) : Prop extends World.Keeps before after where
  binding : ∀ ref, after.binding ref = before.binding ref
  batch : ∀ ref, after.batch ref = before.batch ref
  otherSpace : ∀ {other}, other ≠ space → ∀ name, after.member? other name = before.member? other name
  otherName : ∀ {name}, name ∉ values.map (·.1) → after.member? space name = before.member? space name
  shown : space.index < before.spaces.size → (values.map (·.1)).Nodup →
    ∀ {name value}, (name, value) ∈ values → after.member? space name = some value

namespace World

variable {first second third : World}

theorem Asked.slotValue? {refs : List ProviderRef} (h : first.Asked refs second) (slot : Slot) :
    second.slotValue? slot = first.slotValue? slot := by
  simp only [World.slotValue?, yielded?_congr h.source h.binding]

theorem Asked.roundValues {refs : List ProviderRef} (h : first.Asked refs second)
    (slots : List (String × Slot)) :
    second.roundValues slots = first.roundValues slots := by
  simp only [World.roundValues, h.slotValue?]

/-- What is assigned to names of a namespace does not matter to what slots give. -/
theorem roundValues_setMember (world : World) (space : NamespaceRef) (name : String)
    (value : Value) (slots : List (String × Slot)) :
    (world.setMember space name value).roundValues slots = world.roundValues slots := rfl

namespace Refreshed

variable {space : NamespaceRef} {values : List (String × Value)}

theorem nil (space : NamespaceRef) (world : World) : world.Refreshed space [] world where
  toKeeps := .refl world
  binding _ := rfl
  batch _ := rfl
  otherSpace _ _ := rfl
  otherName _ := rfl
  shown _ _ _ _ h := by cases h

theorem asked_left {refs : List ProviderRef} (h : first.Asked refs second)
    (h' : second.Refreshed space values third) : first.Refreshed space values third where
  toKeeps := h.toKeeps.trans h'.toKeeps
  binding ref := (h'.binding ref).trans (h.binding ref)
  batch ref := (h'.batch ref).trans (h.batch ref)
  otherSpace hother name := (h'.otherSpace hother name).trans (h.member? _ _)
  otherName hname := (h'.otherName hname).trans (h.member? _ _)
  shown hspace := h'.shown (h.spaceCount ▸ hspace)

theorem alike_right (h : first.Refreshed space values second) (h' : second.Alike third) :
    first.Refreshed space values third where
  toKeeps := h.toKeeps.trans h'.toKeeps
  binding ref := (h'.binding ref).trans (h.binding ref)
  batch ref := (h'.batch ref).trans (h.batch ref)
  otherSpace hother name := (h'.member? _ _).trans (h.otherSpace hother name)
  otherName hname := (h'.member? _ _).trans (h.otherName hname)
  shown hspace hnodup _ _ hmem := (h'.member? _ _).trans (h.shown hspace hnodup hmem)

/-- One more value written before the others. -/
theorem cons {name : String} {value : Value}
    (h : (first.setMember space name value).Refreshed space values second) :
    first.Refreshed space ((name, value) :: values) second where
  toKeeps := (first.keeps_setMember space name value).trans h.toKeeps
  binding := h.binding
  batch := h.batch
  otherSpace hother otherName := by
    rw [h.otherSpace hother, member?_setMember, if_neg fun hsame => hother hsame.1]
  otherName hname := by
    rw [List.map_cons, List.mem_cons, not_or] at hname
    rw [h.otherName hname.2, member?_setMember, if_neg fun hsame => hname.1 hsame.2.2]
  shown hspace hnodup otherName otherValue hmem := by
    rw [List.map_cons, List.nodup_cons] at hnodup
    have hspace' := (first.keeps_setMember space name value).spaceCount ▸ hspace
    rcases List.mem_cons.mp hmem with heq | hmem
    · cases heq
      rw [h.otherName hnodup.1, member?_setMember, if_pos ⟨rfl, hspace, rfl⟩]
    · exact h.shown hspace' hnodup.2 hmem

end Refreshed

end World

/-- Of all callbacks, the providers of some slots were called since, and certainly those of the slots
that are not constant. -/
def World.Polled (before : World) (slots : List (String × Slot)) (after : World) : Prop :=
  ∃ refs : List ProviderRef, after.calls = refs.map .provider ++ before.calls ∧
    (∀ ref ∈ refs, ∃ row ∈ slots, row.2.provider = ref) ∧
      ∀ row ∈ slots, row.2.isConstant = false → row.2.provider ∈ refs

/-- One more slot polled before the others. -/
theorem World.Polled.cons {first second third : World} {row : String × Slot}
    {slots : List (String × Slot)} {refs : List ProviderRef} (hasked : first.Asked refs second)
    (hrefs : ∀ ref ∈ refs, ref = row.2.provider)
    (hnew : row.2.isConstant = false → row.2.provider ∈ refs) (h : second.Polled slots third) :
    first.Polled (row :: slots) third := by
  obtain ⟨later, hcalls, hlater, hall⟩ := h
  refine ⟨later ++ refs, ?_, fun ref href => ?_, fun other hother hother' => ?_⟩
  · rw [hcalls, hasked.calls, List.map_append, List.append_assoc]
  · rcases List.mem_append.mp href with href | href
    · obtain ⟨found, hfound, hprovider⟩ := hlater ref href
      exact ⟨found, List.mem_cons_of_mem _ hfound, hprovider⟩
    · exact ⟨row, List.mem_cons_self, (hrefs ref href).symm⟩
  · rcases List.mem_cons.mp hother with rfl | hother
    · exact List.mem_append_right _ (hnew hother')
    · exact List.mem_append_left _ (hall other hother hother')

/-- Asking the providers of some slots, all of them plain, gives the values of a round and writes
them into the namespace. -/
theorem meets_refreshSlots {entry : EntryRef} {space : NamespaceRef}
    {slots : List (String × Slot)} {post : List (String × Value) → World → Prop}
    (hplain : ∀ row ∈ slots, (world.provider row.2.provider).source.isPlain = true)
    (h : ∀ after, world.Refreshed space (world.roundValues slots) after →
      world.Polled slots after → post (world.roundValues slots) after) :
    (refreshSlots run entry space slots).Meets world post allowed := by
  induction slots generalizing world post with
  | nil =>
    refine (Effect.meets_pure _).mpr (h world (.nil space world) ⟨[], rfl, ?_, ?_⟩) <;> simp
  | cons row rest ih =>
    obtain ⟨name, slot⟩ := row
    have hslot := hplain (name, slot) (by simp)
    simp only [refreshSlots, Effect.meets_bind, Effect.meets_holding]
    refine meets_slot_value hslot fun refs after hafter hrefs hnew => ?_
    -- What was held on to while the provider was asked is given up again.
    have hasked : world.Asked refs { after with held := world.held } := by
      have hheld := (World.alike_held world _).trans' hafter
      exact hheld.trans_alike (World.alike_held after world.held)
    generalize ({ after with held := world.held } : World) = asked at hasked
    have hslotValue : World.slotValue?
        { world with held := slot.holdings ++ slotHoldings rest ++ world.held } slot =
          world.slotValue? slot :=
      rfl
    rw [hslotValue]
    cases hvalue : world.slotValue? slot with
    | none =>
      have hvalues : world.roundValues ((name, slot) :: rest) = world.roundValues rest := by
        simp [World.roundValues, hvalue]
      rw [hvalues] at h
      refine ih (fun row hrow => ?_) fun after hafter hpolled => ?_
      · rw [hasked.source]
        exact hplain row (by simp [hrow])
      · rw [hasked.roundValues] at hafter ⊢
        exact h after (.asked_left hasked hafter) (.cons hasked hrefs hnew hpolled)
    | some value =>
      have hvalues : world.roundValues ((name, slot) :: rest) =
          (name, value) :: world.roundValues rest := by
        simp [World.roundValues, hvalue]
      rw [hvalues] at h
      have hrest (kept : World) (hkept : world.Asked refs kept) :
          Effect.Meets (do
            modify (·.setMember space name value)
            let values ← Effect.holding value.holdings (refreshSlots run entry space rest)
            return (name, value) :: values) kept post allowed := by
        simp only [Effect.meets_bind, Effect.meets_modify, Effect.meets_holding, Effect.meets_pure]
        have hheld := World.alike_held (kept.setMember space name value)
          (value.holdings ++ (kept.setMember space name value).held)
        refine ih (fun row hrow => ?_) fun after hafter hpolled => ?_
        · have hsource := hkept.source row.2.provider
          exact hsource ▸ hplain row (by simp [hrow])
        · rw [hheld.roundValues, World.roundValues_setMember, hkept.roundValues] at hafter ⊢
          refine h _ (.asked_left hkept (.cons ?_)) (.cons hkept hrefs hnew hpolled)
          exact .alike_right (.asked_left hheld hafter) (World.alike_held _ _)
      by_cases hconstant : slot.isConstant = true
      · simp only [hconstant, if_true, Effect.meets_bind, Effect.meets_modify]
        have hkeep := World.alike_keepValue asked entry name slot.provider value
        simpa only [Effect.meets_bind, Effect.meets_modify] using
          hrest _ (hasked.trans_alike hkeep)
      · simp only [hconstant, Bool.false_eq_true, if_false]
        simpa only [Effect.meets_bind, Effect.meets_modify, Effect.meets_pure] using
          hrest asked hasked

/-- An entry without slots whose namespace is no module's exports that namespace. -/
def World.exportsItself (world : World) (entry : EntryRef) : Bool :=
  (world.entry entry).slots.rows.isEmpty && !(world.space (world.entry entry).space).isModule

/-- The current values of an entry whose providers are all plain. -/
theorem meets_refresh {entry : EntryRef} {post : List (String × Value) → World → Prop}
    (hplain : ∀ row ∈ (world.entry entry).slots.rows,
      (world.provider row.2.provider).source.isPlain = true)
    (hslots : world.exportsItself entry = false)
    (h : ∀ after, world.Refreshed (world.entry entry).space
        (world.roundValues (world.entry entry).slots.rows) after →
      world.Polled (world.entry entry).slots.rows after →
        post (world.roundValues (world.entry entry).slots.rows) after) :
    (refresh run entry).Meets world post allowed := by
  unfold World.exportsItself at hslots
  simp only [refresh, Effect.meets_bind, Effect.meets_get, hslots, Bool.false_eq_true, if_false,
    Effect.meets_holding]
  refine meets_refreshSlots hplain fun after hafter hpolled => ?_
  have hheld := World.alike_held world
    ([.space (world.entry entry).space] ++ world.held)
  rw [hheld.roundValues] at hafter ⊢
  exact h _ (.alike_right (.asked_left hheld hafter) (World.alike_held _ _)) hpolled

/-- The current value of an entry that exports its namespace. -/
theorem meets_refresh_of_exportsItself {entry : EntryRef}
    {post : List (String × Value) → World → Prop} (hself : world.exportsItself entry = true)
    (h : post [(defaultName, .space (world.entry entry).space)] world) :
    (refresh run entry).Meets world post allowed := by
  unfold World.exportsItself at hself
  simp only [refresh, Effect.meets_bind, Effect.meets_get, hself, if_true, Effect.meets_pure]
  exact h

/-- The values that a round takes have the names of the slots, in their order. -/
theorem sublist_refreshSlots (run : Runner) (entry : EntryRef) (space : NamespaceRef)
    (slots : List (String × Slot)) (world : World) :
    (refreshSlots run entry space slots).Meets world
      (fun values _ => (values.map (·.1)).Sublist (slots.map (·.1))) fun _ => True := by
  induction slots generalizing world with
  | nil => exact (Effect.meets_pure _).mpr (List.Sublist.refl [])
  | cons row rest ih =>
    simp only [refreshSlots, Effect.meets_bind]
    refine (Effect.meets_true _ _).weaken fun value asked _ => ?_
    cases value with
    | none => exact (ih asked).weaken fun _ _ h => h.cons _
    | some value =>
      have hrest (kept : World) : Effect.Meets (do
          modify (·.setMember space row.1 value)
          let values ← Effect.holding value.holdings (refreshSlots run entry space rest)
          return (row.1, value) :: values) kept
          (fun values _ => (values.map (·.1)).Sublist ((row :: rest).map (·.1))) fun _ => True := by
        simp only [Effect.meets_bind, Effect.meets_modify, Effect.meets_holding, Effect.meets_pure]
        exact (ih _).weaken fun _ _ h => h.cons_cons _
      by_cases hconstant : row.2.isConstant = true
      · simpa only [hconstant, if_true, Effect.meets_bind, Effect.meets_modify] using hrest _
      · simpa only [hconstant, Bool.false_eq_true, if_false, Effect.meets_bind, Effect.meets_modify,
          Effect.meets_pure] using hrest asked

/-- The values that a round takes have different names, if the slots of its entry do. -/
theorem nodup_refresh (run : Runner) {entry : EntryRef}
    (hslots : (world.entry entry).slots.names.Nodup) :
    (refresh run entry).Meets world (fun values _ => (values.map (·.1)).Nodup) fun _ => True := by
  simp only [refresh, Effect.meets_bind, Effect.meets_get]
  split
  · exact (Effect.meets_pure _).mpr (by simp)
  · simp only [Effect.meets_holding]
    exact (sublist_refreshSlots run entry _ _ _).weaken fun _ _ h => h.nodup hslots

/-! ### Deliveries -/

/-- A delivery to one consumer of an active batch: either it has seen the value last, or this is noted
and it receives the value. -/
theorem meets_deliverTo {batch : BatchRef} {name : String} {value : Value} {slot : String}
    {consumer : Consumer} {post : Bool → World → Prop}
    (hactive : (world.batch batch).isActive = true)
    (hseen : world.seen? batch slot name = some value → post true world)
    (hnew : (consumer.respond run name value).Meets (world.handOver batch slot name value)
      (fun _ after => post true after) allowed) :
    (deliverTo run batch name value slot consumer).Meets world post allowed := by
  simp only [deliverTo_eq, Effect.meets_bind, Effect.meets_get, hactive, Bool.not_true,
    Bool.false_eq_true, if_false]
  cases hlast : world.seen? batch slot name with
  | none => simpa using hnew
  | some last =>
    by_cases hsame : value = last
    · have hmet := hseen (by rw [hlast, hsame])
      simpa [hsame] using hmet
    · simpa [hsame] using hnew

/-- How far the world may move while values are delivered (`rel`), what holds before each delivery
(`pre`), and what each delivery reaches (`goal`): moving keeps both of the latter. -/
structure Delivering (rel : World → World → Prop) (pre : World → Prop)
    (goal : BatchRef → String → World → Prop) : Prop where
  held : ∀ world held, rel world { world with held }
  trans : ∀ {first second third}, rel first second → rel second third → rel first third
  keepsPre : ∀ {first second}, rel first second → pre first → pre second
  keepsGoal : ∀ {first second batch name}, rel first second → goal batch name first →
    goal batch name second

section

variable {rel : World → World → Prop} {pre : World → Prop}
  {goal : BatchRef → String → World → Prop}

/-- Delivering values to one batch reaches the goal of each. -/
theorem Delivering.meets_deliverValues (hdelivering : Delivering rel pre goal) {batch : BatchRef}
    (hactive : ∀ world, pre world → (world.batch batch).isActive = true)
    {values : List (String × Value)}
    (hdeliver : ∀ row ∈ values, ∀ world, pre world →
      (deliver run batch row.1 row.2).Meets world
        (fun _ after => rel world after ∧ goal batch row.1 after) allowed)
    (hpre : pre world) :
    (deliverValues run batch values).Meets world
      (fun _ after => rel world after ∧ ∀ row ∈ values, goal batch row.1 after) allowed := by
  induction values generalizing world with
  | nil => exact (Effect.meets_pure _).mpr ⟨hdelivering.held world world.held, by simp⟩
  | cons row rest ih =>
    obtain ⟨name, value⟩ := row
    simp only [deliverValues, Effect.meets_bind, Effect.meets_get, hactive world hpre, if_true]
    refine (hdeliver (name, value) (by simp) world hpre).weaken fun _ middle hmiddle => ?_
    have hrest := ih (fun row hrow => hdeliver row (by simp [hrow]))
      (hdelivering.keepsPre hmiddle.1 hpre)
    refine hrest.weaken fun _ after hafter => ⟨hdelivering.trans hmiddle.1 hafter.1, ?_⟩
    intro row hrow
    rcases List.mem_cons.mp hrow with rfl | hrow
    · exact hdelivering.keepsGoal hafter.1 hmiddle.2
    · exact hafter.2 row hrow

/-- Delivering values to batches reaches the goal of each batch and value. -/
theorem Delivering.meets_deliverToBatches (hdelivering : Delivering rel pre goal)
    {batches : List BatchRef} {values : List (String × Value)}
    (hactive : ∀ world, pre world → ∀ batch ∈ batches, (world.batch batch).isActive = true)
    (hdeliver : ∀ batch ∈ batches, ∀ row ∈ values, ∀ world, pre world →
      (deliver run batch row.1 row.2).Meets world
        (fun _ after => rel world after ∧ goal batch row.1 after) allowed)
    (hpre : pre world) :
    (deliverToBatches run values batches).Meets world
      (fun _ after => rel world after ∧ ∀ batch ∈ batches, ∀ row ∈ values, goal batch row.1 after)
      allowed := by
  induction batches generalizing world with
  | nil => exact (Effect.meets_pure _).mpr ⟨hdelivering.held world world.held, by simp⟩
  | cons batch rest ih =>
    simp only [deliverToBatches, Effect.meets_bind, Effect.meets_holding]
    have hheld := hdelivering.held world (((batch :: rest).map .batch) ++ world.held)
    have hbatch := hdelivering.meets_deliverValues
      (fun world hpre => hactive world hpre batch (by simp))
      (hdeliver batch (by simp)) (hdelivering.keepsPre hheld hpre)
    refine hbatch.weaken fun _ middle hmiddle => ?_
    have hgiven := hdelivering.held middle world.held
    have hfirst := hdelivering.trans hheld (hdelivering.trans hmiddle.1 hgiven)
    have hrest := ih (fun world hpre other hother => hactive world hpre other (by simp [hother]))
      (fun other hother => hdeliver other (by simp [hother]))
      (hdelivering.keepsPre hfirst hpre)
    refine hrest.weaken fun _ after hafter => ⟨hdelivering.trans hfirst hafter.1, ?_⟩
    intro other hother row hrow
    rcases List.mem_cons.mp hother with rfl | hother
    · exact hdelivering.keepsGoal hafter.1 (hdelivering.keepsGoal hgiven (hmiddle.2 row hrow))
    · exact hafter.2 other hother row hrow

/-- A round: if deliveries of the values with which it has begun reach their goals, then so does the
round, and what held before each delivery holds in the end. -/
theorem Delivering.meets_propagate_of_refresh (hdelivering : Delivering rel pre goal)
    {entry : EntryRef} {begun : List (String × Value) → World → Prop}
    (hrefresh : (refresh run entry).Meets world
      (fun values refreshed => begun values refreshed ∧ pre refreshed ∧
        (refreshed.entry entry).batches = (world.entry entry).batches) allowed)
    (hactive : ∀ world', pre world' → ∀ batch ∈ (world.entry entry).batches,
      (world'.batch batch).isActive = true)
    (hdeliver : ∀ values refreshed, begun values refreshed →
      ∀ batch ∈ (world.entry entry).batches, ∀ row ∈ values, ∀ world', pre world' →
        (deliver run batch row.1 row.2).Meets world'
          (fun _ after => rel world' after ∧ goal batch row.1 after) allowed) :
    (propagate run entry).Meets world
      (fun _ after => pre after ∧ ∃ values refreshed, begun values refreshed ∧
        rel refreshed after ∧
          ∀ batch ∈ (world.entry entry).batches, ∀ row ∈ values, goal batch row.1 after)
      allowed := by
  simp only [propagate, Effect.meets_bind, Effect.meets_get, Effect.meets_holding]
  refine hrefresh.weaken fun values refreshed hrefreshed => ?_
  obtain ⟨hbegun, hpre, hbatches⟩ := hrefreshed
  rw [hbatches]
  have hheld := hdelivering.held refreshed
    ((values.flatMap fun row => row.2.holdings) ++ refreshed.held)
  have hdelivered := hdelivering.meets_deliverToBatches hactive (hdeliver values refreshed hbegun)
    (hdelivering.keepsPre hheld hpre)
  refine hdelivered.weaken fun _ after hafter => ?_
  have hgiven := hdelivering.held after refreshed.held
  have hmoved := hdelivering.trans hheld (hdelivering.trans hafter.1 hgiven)
  refine ⟨hdelivering.keepsPre hmoved hpre, values, refreshed, hbegun, hmoved, ?_⟩
  exact fun batch hbatch row hrow => hdelivering.keepsGoal hgiven (hafter.2 batch hbatch row hrow)

/-- A round over an entry whose providers are plain. -/
theorem Delivering.meets_propagate (hdelivering : Delivering rel pre goal) {entry : EntryRef}
    (hplain : ∀ row ∈ (world.entry entry).slots.rows,
      (world.provider row.2.provider).source.isPlain = true)
    (hslots : world.exportsItself entry = false)
    (hactive : ∀ world', pre world' → ∀ batch ∈ (world.entry entry).batches,
      (world'.batch batch).isActive = true)
    (hdeliver : ∀ batch ∈ (world.entry entry).batches,
      ∀ row ∈ world.roundValues (world.entry entry).slots.rows, ∀ world', pre world' →
        (deliver run batch row.1 row.2).Meets world'
          (fun _ after => rel world' after ∧ goal batch row.1 after) allowed)
    (hrefreshed : ∀ refreshed, world.Refreshed (world.entry entry).space
      (world.roundValues (world.entry entry).slots.rows) refreshed →
        world.Polled (world.entry entry).slots.rows refreshed →
          rel world refreshed ∧ pre refreshed) :
    (propagate run entry).Meets world
      (fun _ after => rel world after ∧ pre after ∧ ∀ batch ∈ (world.entry entry).batches,
        ∀ row ∈ world.roundValues (world.entry entry).slots.rows, goal batch row.1 after)
      allowed := by
  have hrefresh : (refresh run entry).Meets world
      (fun values refreshed => (values = world.roundValues (world.entry entry).slots.rows ∧
        rel world refreshed) ∧ pre refreshed ∧
          (refreshed.entry entry).batches = (world.entry entry).batches) allowed := by
    refine meets_refresh hplain hslots fun refreshed hrefresh hpolled => ?_
    obtain ⟨hrel, hpre⟩ := hrefreshed refreshed hrefresh hpolled
    exact ⟨⟨rfl, hrel⟩, hpre, hrefresh.batches entry⟩
  refine (hdelivering.meets_propagate_of_refresh hrefresh hactive ?_).weaken ?_
  · rintro _ _ ⟨rfl, -⟩
    exact hdeliver
  · rintro _ after ⟨hpre, _, refreshed, ⟨rfl, hrel⟩, hmoved, hgoals⟩
    exact ⟨hdelivering.trans hrel hmoved, hpre, hgoals⟩

end

end ModuleLinkage.Ledger
