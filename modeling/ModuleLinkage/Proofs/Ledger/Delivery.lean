import ModuleLinkage.Proofs.Ledger.Frame
import ModuleLinkage.Proofs.Ledger.SameValue
import ModuleLinkage.Proofs.Ledger.Tables

/-!
# What a delivery changes

Propagation changes four things: what variables hold, what namespaces show, what batches have seen,
and the list of the callbacks that were called. This module states each of these changes once
(`World.binding_setBinding`, `World.member?_setMember`, `World.seen?_handOver`,
`World.member?_writeThrough`), together with the fact that everything registered stays the same.
-/

set_option autoImplicit false

namespace ModuleLinkage.Ledger

/-- What a namespace shows under a name. -/
def World.member? (world : World) (ref : NamespaceRef) (name : String) : Option Value :=
  (world.space ref).members.get? name

/-- The names under which a batch gives a value to its consumers are different. -/
theorem nodup_concerned (batch : Batch) (name : String) :
    ((batch.concerned name).map (·.1)).Nodup := by
  unfold Batch.concerned
  by_cases hname : name = everyName
  · cases batch.consumers.get? name <;> simp [hname]
  · cases batch.consumers.get? name <;> cases batch.consumers.get? everyName <;> simp [hname]

/-- What a batch gives values to are its consumers. -/
theorem mem_rows_of_mem_concerned {batch : Batch} {name : String} {row : String × Consumer}
    (h : row ∈ batch.concerned name) : ∃ other ∈ batch.consumers.rows, other.2 = row.2 := by
  have hfound {key : String} {consumer : Consumer}
      (hget : batch.consumers.get? key = some consumer) :
      ∃ other ∈ batch.consumers.rows, other.2 = consumer := by
    unfold Table.get? at hget
    obtain ⟨other, hother, hvalue⟩ := Option.map_eq_some_iff.mp hget
    exact ⟨other, List.mem_of_find?_eq_some hother, hvalue⟩
  unfold Batch.concerned at h
  simp only [List.mem_append, Option.mem_toList, Option.map_eq_some_iff] at h
  rcases h with ⟨consumer, hget, rfl⟩ | hevery
  · exact hfound hget
  · split at hevery
    · cases hevery
    · obtain ⟨consumer, hget, rfl⟩ := Option.map_eq_some_iff.mp hevery
      exact hfound hget

/-- Leaving out the rows of one key finds the same under any other key. -/
theorem find?_filter_key_ne {α β : Type} [BEq α] [LawfulBEq α] (rows : List (α × β))
    {key other : α} (hne : other ≠ key) :
    ((rows.filter fun row => !(row.1 == key)).find? fun row => row.1 == other) =
      rows.find? fun row => row.1 == other := by
  induction rows with
  | nil => rfl
  | cons row rest ih =>
    by_cases hkey : row.1 = key
    · have hother : row.1 ≠ other := fun h => hne (h.symm.trans hkey)
      rw [List.filter_cons_of_neg (by simp [hkey]), List.find?_cons_of_neg (by simp [hother]), ih]
    · rw [List.filter_cons_of_pos (by simp [hkey]), List.find?_cons, List.find?_cons, ih]

namespace World

variable (world : World)

theorem Asked.member? {refs : List ProviderRef} {first second : World}
    (h : first.Asked refs second) (ref : NamespaceRef) (name : String) :
    second.member? ref name = first.member? ref name := by
  simp only [World.member?, h.members]

/-! ### Variables -/

theorem keeps_setBinding (ref : BindingRef) (value : Value) :
    world.Keeps (world.setBinding ref value) :=
  { Keeps.refl world with
    bindingNew := .inl
    bindingCount := Nat.le_of_eq (Store.size_update ..).symm
    namesValid := fun h => by
      change NamesValid world.names.bindings (world.bindings.update _ _).size
      rw [Store.size_update]
      exact h }

/-- An assignment changes one variable. -/
theorem binding_setBinding (ref : BindingRef) (value : Value) (other : BindingRef) :
    (world.setBinding ref value).binding other =
      if other = ref ∧ ref.index < world.bindings.size then some value
      else world.binding other := by
  change (world.bindings.update _ _).get _ = _
  rw [Store.get_update]
  have hiff : other.index = ref.index ↔ other = ref := by
    cases other
    cases ref
    simp
  simp only [hiff]
  rfl

/-! ### Namespaces -/

/-- A change of what a namespace shows leaves everything registered as it is. -/
theorem keeps_updateSpace (ref : NamespaceRef) (change : Table Value → Table Value) :
    world.Keeps (world.updateSpace ref fun space => { space with members := change space.members }) :=
  { Keeps.refl world with
    spaceCount := Store.size_update ..
    isModule := fun _ => Store.proj_get_update _ _ _ Namespace.isModule fun _ => rfl
    entryOf := fun _ => Store.proj_get_update _ _ _ Namespace.entry fun _ => rfl }

theorem keeps_setMember (ref : NamespaceRef) (name : String) (value : Value) :
    world.Keeps (world.setMember ref name value) :=
  world.keeps_updateSpace ref fun members => members.put name value

/-- A namespace that exists shows what is put into it. -/
theorem member?_setMember (ref : NamespaceRef) (name : String) (value : Value)
    (other : NamespaceRef) (otherName : String) :
    (world.setMember ref name value).member? other otherName =
      if other = ref ∧ ref.index < world.spaces.size ∧ otherName = name then some value
      else world.member? other otherName := by
  have hiff : other.index = ref.index ↔ other = ref := by
    cases other
    cases ref
    simp
  change ((world.spaces.update _ _).get _).members.get? _ = _
  rw [Store.get_update]
  by_cases hother : other = ref <;> by_cases hsize : ref.index < world.spaces.size
  · subst hother
    simp only [true_and, hsize, if_true, Table.get?_put]
    rfl
  all_goals simp [hiff, hother, hsize, World.member?, World.space]

/-- Values put into namespaces one after the other. -/
theorem foldl_setMember (spaces : List NamespaceRef) (name : String) (value : Value) :
    let after := spaces.foldl (fun world space => world.setMember space name value) world
    world.Keeps after ∧ after.bindings = world.bindings ∧ after.batches = world.batches ∧
      after.calls = world.calls ∧
      ∀ other otherName, after.member? other otherName =
        if other ∈ spaces ∧ other.index < world.spaces.size ∧ otherName = name then some value
        else world.member? other otherName := by
  induction spaces generalizing world with
  | nil => exact ⟨.refl world, rfl, rfl, rfl, fun other otherName => by simp⟩
  | cons space rest ih =>
    obtain ⟨hkeeps, hbindings, hbatches, hcalls, hmember⟩ := ih (world.setMember space name value)
    have hfirst := world.keeps_setMember space name value
    refine ⟨hfirst.trans hkeeps, hbindings, hbatches, hcalls, fun other otherName => ?_⟩
    rw [List.foldl_cons, hmember, member?_setMember, hfirst.spaceCount]
    by_cases hspace : other = space
    · subst hspace
      by_cases h : other.index < world.spaces.size ∧ otherName = name
      · simp [h]
      · simp [h]
    · simp [hspace]

/-! ### What batches have seen -/

theorem keeps_updateBatch (ref : BatchRef) {change : Batch → Batch}
    (hchange : ∀ batch, (change batch).registered = batch.registered) :
    world.Keeps (world.updateBatch ref change) :=
  { Keeps.refl world with
    batchCount := Store.size_update ..
    registered := fun _ => Store.proj_get_update _ _ _ Batch.registered hchange }

/-- A change of a batch that leaves alone what it has seen. -/
theorem seen?_updateBatch (ref : BatchRef) {change : Batch → Batch}
    (hchange : ∀ batch, (change batch).seen = batch.seen) (other : BatchRef) (slot name : String) :
    (world.updateBatch ref change).seen? other slot name = world.seen? other slot name := by
  have hseen : ((world.updateBatch ref change).batch other).seen = (world.batch other).seen :=
    Store.proj_get_update _ _ _ Batch.seen hchange
  rw [seen?, hseen, seen?]

theorem keeps_noteSeen (ref : BatchRef) (slot name : String) (value : Value) :
    world.Keeps (world.noteSeen ref slot name value) :=
  world.keeps_updateBatch ref fun _ => rfl

/-- Noting a value changes what a batch has seen under one pair of names. -/
theorem seen?_noteSeen (ref : BatchRef) (slot name : String) (value : Value) (other : BatchRef)
    (otherSlot otherName : String) :
    (world.noteSeen ref slot name value).seen? other otherSlot otherName =
      if other = ref ∧ ref.index < world.batches.size ∧ otherSlot = slot ∧ otherName = name then
        some value
      else world.seen? other otherSlot otherName := by
  have hiff : other.index = ref.index ↔ other = ref := by
    cases other
    cases ref
    simp
  change ((((world.batches.update _ _).get _).seen.find? _).map _) = _
  rw [Store.get_update]
  by_cases hother : other = ref <;> by_cases hsize : ref.index < world.batches.size
  · subst hother
    by_cases hkey : (otherSlot, otherName) = (slot, name)
    · obtain ⟨rfl, rfl⟩ := Prod.mk.inj hkey
      simp [hsize]
    · have hboth : ¬ (otherSlot = slot ∧ otherName = name) := fun h => hkey (by rw [h.1, h.2])
      have hne : ¬ (slot, name) = (otherSlot, otherName) := fun h => hkey h.symm
      simp only [true_and, hsize, if_true, hboth, if_false]
      rw [List.find?_cons_of_neg (by simpa using hne), find?_filter_key_ne _ hkey]
      rfl
  all_goals simp [hiff, hother, hsize, World.seen?, World.batch]

/-! ### Handing over -/

/-- A value is handed to a consumer: its batch notes the value as seen, and the consumer is called. -/
def handOver (world : World) (ref : BatchRef) (slot name : String) (value : Value) : World :=
  (world.noteSeen ref slot name value).logCall (.consumer ref slot name value)

theorem keeps_handOver (ref : BatchRef) (slot name : String) (value : Value) :
    world.Keeps (world.handOver ref slot name value) :=
  { world.keeps_noteSeen ref slot name value with }

theorem calls_handOver (ref : BatchRef) (slot name : String) (value : Value) :
    (world.handOver ref slot name value).calls =
      .consumer ref slot name value :: world.calls := rfl

/-- A consumer to which a value is handed has seen it last. -/
theorem seen?_handOver (ref : BatchRef) (slot name : String) (value : Value) (other : BatchRef)
    (otherSlot otherName : String) :
    (world.handOver ref slot name value).seen? other otherSlot otherName =
      if other = ref ∧ ref.index < world.batches.size ∧ otherSlot = slot ∧ otherName = name then
        some value
      else world.seen? other otherSlot otherName :=
  world.seen?_noteSeen ref slot name value other otherSlot otherName

/-! ### Writing through to the namespaces of a batch -/

/-- A batch without namespaces writes nothing; any other notes the name that it has written. -/
theorem writeThrough_cases (ref : BatchRef) (name : String) (value : Value) :
    ((world.batch ref).spaces = [] ∧ world.writeThrough ref name value = world) ∨
      world.writeThrough ref name value =
        ((world.batch ref).spaces.foldl (fun world space => world.setMember space name value)
          world).updateBatch ref
          fun batch => { batch with written := batch.written.insert name } := by
  unfold writeThrough
  cases hspaces : (world.batch ref).spaces with
  | nil => exact .inl ⟨rfl, rfl⟩
  | cons space rest => exact .inr rfl

theorem keeps_writeThrough (ref : BatchRef) (name : String) (value : Value) :
    world.Keeps (world.writeThrough ref name value) := by
  rcases world.writeThrough_cases ref name value with ⟨_, h⟩ | h <;> rw [h]
  · exact .refl world
  · exact (world.foldl_setMember _ name value).1.trans (keeps_updateBatch _ ref fun _ => rfl)

theorem binding_writeThrough (ref : BatchRef) (name : String) (value : Value)
    (other : BindingRef) :
    (world.writeThrough ref name value).binding other = world.binding other := by
  rcases world.writeThrough_cases ref name value with ⟨_, h⟩ | h <;> rw [h]
  exact congrArg (Store.get · other.index) (world.foldl_setMember _ name value).2.1

theorem calls_writeThrough (ref : BatchRef) (name : String) (value : Value) :
    (world.writeThrough ref name value).calls = world.calls := by
  rcases world.writeThrough_cases ref name value with ⟨_, h⟩ | h <;> rw [h]
  exact (world.foldl_setMember _ name value).2.2.2.1

theorem seen?_writeThrough (ref : BatchRef) (name : String) (value : Value) (other : BatchRef)
    (slot otherName : String) :
    (world.writeThrough ref name value).seen? other slot otherName =
      world.seen? other slot otherName := by
  rcases world.writeThrough_cases ref name value with ⟨_, h⟩ | h <;> rw [h]
  have hbatches := (world.foldl_setMember (world.batch ref).spaces name value).2.2.1
  refine (seen?_updateBatch _ ref (by exact fun _ => rfl) ..).trans ?_
  exact congrArg (fun batches : Store Batch =>
    ((batches.get other.index).seen.find? fun row => row.1 == (slot, otherName)).map (·.2)) hbatches

/-- A value written through is shown by every namespace of the batch, and by no other one. -/
theorem member?_writeThrough (ref : BatchRef) (name : String) (value : Value)
    (other : NamespaceRef) (otherName : String) :
    (world.writeThrough ref name value).member? other otherName =
      if other ∈ (world.batch ref).spaces ∧ other.index < world.spaces.size ∧ otherName = name then
        some value
      else world.member? other otherName := by
  rcases world.writeThrough_cases ref name value with ⟨hspaces, h⟩ | h <;> rw [h]
  · simp [hspaces]
  · exact (world.foldl_setMember _ name value).2.2.2.2 other otherName

end World

/-! ### Calling a consumer -/

/-- What a consumer does with a value once it is called. -/
def Consumer.respond (run : Runner) (consumer : Consumer) (name : String) (value : Value) :
    Effect Unit := do
  match consumer with
  | .assign binding => modify (·.setBinding binding value)
  | .copyInto space => modify (·.setMember space name value)
  | .callback label lines scope =>
    match label with
    | some label => Effect.report (.received label name (← showValue value))
    | none => pure ()
    match ← (run { scope with received := some (value, name) } "setter" lines).attempt with
    | .ok () => pure ()
    | .error error => Effect.report (.consumerFailed error)

/-- A consumer is called, and then does what it does. -/
theorem Consumer.receive_eq (run : Runner) (consumer : Consumer) (batch : BatchRef)
    (slot name : String) (value : Value) :
    consumer.receive run batch slot name value = (do
      modify (·.logCall (.consumer batch slot name value))
      consumer.respond run name value) := rfl

/-- A batch that goes on hands a value over to a consumer that has not seen it last. -/
theorem deliverTo_eq (run : Runner) (batch : BatchRef) (name : String) (value : Value) (slot : String)
    (consumer : Consumer) :
    deliverTo run batch name value slot consumer = (do
      let world ← get
      if !(world.batch batch).isActive then return false
      else if ((world.seen? batch slot name).map value.same).getD false then return true
      else
        modify (·.handOver batch slot name value)
        consumer.respond run name value
        return true) := rfl

end ModuleLinkage.Ledger
