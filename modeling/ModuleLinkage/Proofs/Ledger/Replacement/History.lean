import ModuleLinkage.Proofs.Ledger.Delivery

/-!
# Histories of batches

What a world does to its batches comes down to four deeds: batches are registered, replaced by others
with their key, called back, and they write into their namespaces (`Deed`). A history (`History`) is a
run of a world as its batches see it: a sequence of deeds, with anything else in between that leaves
the batches and the lists of them alone (`World.Elsewhere`). An active batch alone is called back or
writes.

Along every history from a world without batches the batches are in order (`World.InOrder`): those that
are listed are active, and at each entry no two have one key. A batch that is replaced is no longer
listed and never active again, so nothing follows its replacement in the history
(`History.pairwise_respects`); and what a batch notes as written is exactly what it has written
(`History.mem_written_iff`).
-/

set_option autoImplicit false

namespace ModuleLinkage.Ledger

/-! ### Deeds -/

/-- What happens to a batch, or through it. -/
inductive Deed where
  | registered (batch : BatchRef)
  | replaced (batch : BatchRef)
  /-- The batch writes a value under a name into each of its namespaces. -/
  | wrote (batch : BatchRef) (name : String)
  /-- The consumer called `slot` of the batch receives a value under a name. -/
  | called (batch : BatchRef) (slot name : String) (value : Value)

namespace Deed

/-- The batch that a deed is about. -/
def batch : Deed → BatchRef
  | registered batch => batch
  | replaced batch => batch
  | wrote batch _ => batch
  | called batch _ _ _ => batch

/-- The call of a callback that a deed is. -/
def call? : Deed → Option Callback
  | called batch slot name value => some (.consumer batch slot name value)
  | _ => none

end Deed

/-- Whether a call of a callback is one of a consumer. -/
def Callback.isConsumer : Callback → Bool
  | .consumer .. => true
  | .provider _ => false

namespace World

variable (world : World)

/-! ### Records after a change -/

theorem space_updateSpace (ref : NamespaceRef) (change : Namespace → Namespace)
    (other : NamespaceRef) : (world.updateSpace ref change).space other =
      if other = ref ∧ ref.index < world.spaces.size then change (world.space ref)
      else world.space other := by
  obtain ⟨index⟩ := other
  obtain ⟨index'⟩ := ref
  simp only [NamespaceRef.mk.injEq]
  exact Store.get_update world.spaces change index' index

theorem entry_updateEntry (ref : EntryRef) (change : Entry → Entry) (other : EntryRef) :
    (world.updateEntry ref change).entry other =
      if other = ref ∧ ref.index < world.entries.size then change (world.entry ref)
      else world.entry other := by
  obtain ⟨index⟩ := other
  obtain ⟨index'⟩ := ref
  simp only [EntryRef.mk.injEq]
  exact Store.get_update world.entries change index' index

theorem batch_updateBatch (ref : BatchRef) (change : Batch → Batch) (other : BatchRef) :
    (world.updateBatch ref change).batch other =
      if other = ref ∧ ref.index < world.batches.size then change (world.batch ref)
      else world.batch other := by
  obtain ⟨index⟩ := other
  obtain ⟨index'⟩ := ref
  simp only [BatchRef.mk.injEq]
  exact Store.get_update world.batches change index' index

/-- A value that is written through is noted with its name. -/
theorem batch_writeThrough {ref : BatchRef} (hspaces : (world.batch ref).spaces ≠ [])
    (name : String) (value : Value) (other : BatchRef) :
    (world.writeThrough ref name value).batch other =
      if other = ref ∧ ref.index < world.batches.size then
        { world.batch ref with written := (world.batch ref).written.insert name }
      else world.batch other := by
  rcases world.writeThrough_cases ref name value with ⟨hnone, -⟩ | h
  · exact absurd hnone hspaces
  · have hbatches : (World.batches _) = world.batches :=
      (world.foldl_setMember (world.batch ref).spaces name value).2.2.1
    have hbatch (other : BatchRef) : (World.batch _ other) = world.batch other :=
      congrArg (Store.get · other.index) hbatches
    rw [h, batch_updateBatch, hbatches, hbatch, hbatch]

/-- Where no record is, there is the default one. -/
theorem space_of_size_le {ref : NamespaceRef} (h : world.spaces.size ≤ ref.index) :
    world.space ref = default :=
  Store.get_of_size_le _ h

theorem entry_of_size_le {ref : EntryRef} (h : world.entries.size ≤ ref.index) :
    world.entry ref = default :=
  Store.get_of_size_le _ h

theorem batch_of_size_le {ref : BatchRef} (h : world.batches.size ≤ ref.index) :
    world.batch ref = default :=
  Store.get_of_size_le _ h

/-- Only batches that exist are active. -/
theorem lt_of_isActive {ref : BatchRef} (h : (world.batch ref).isActive = true) :
    ref.index < world.batches.size := by
  refine Nat.lt_of_not_le fun hle => ?_
  rw [world.batch_of_size_le hle] at h
  cases h

/-- Where everything registered is the same, slots have the same names. -/
theorem Keeps.slotNames {before after : World} (h : before.Keeps after) (ref : EntryRef) :
    (after.entry ref).slots.names = (before.entry ref).slots.names := by
  have hnames (entry : Entry) : entry.slots.names = entry.exported.map (·.1) := by
    simp [Table.names, Entry.exported]
  rw [hnames, hnames, h.exported]

/-! ### Names that are removed -/

/-- Names are removed from what namespaces show, the others keep their values and their order, and
nothing else is different. -/
structure Pruned (removes : NamespaceRef → String → Bool) (before after : World) : Prop where
  rest : after = { before with spaces := after.spaces }
  spaceCount : after.spaces.size = before.spaces.size
  isModule : ∀ ref, (after.space ref).isModule = (before.space ref).isModule
  entryOf : ∀ ref, (after.space ref).entry = (before.space ref).entry
  rows : ∀ ref, (after.space ref).members.rows =
    (before.space ref).members.rows.filter fun row => !removes ref row.1

theorem Pruned.refl : world.Pruned (fun _ _ => false) world where
  rest := rfl
  spaceCount := rfl
  isModule _ := rfl
  entryOf _ := rfl
  rows _ := (List.filter_eq_self.mpr fun _ _ => rfl).symm

theorem Pruned.trans {removes removes' : NamespaceRef → String → Bool} {first second third : World}
    (h : first.Pruned removes second) (h' : second.Pruned removes' third) :
    first.Pruned (fun ref name => removes ref name || removes' ref name) third where
  rest := by
    rw [h'.rest, h.rest]
  spaceCount := h'.spaceCount.trans h.spaceCount
  isModule ref := (h'.isModule ref).trans (h.isModule ref)
  entryOf ref := (h'.entryOf ref).trans (h.entryOf ref)
  rows ref := by
    rw [h'.rows, h.rows, List.filter_filter]
    refine List.filter_congr fun row _ => ?_
    rw [Bool.not_or, Bool.and_comm]

theorem pruned_removeMember (ref : NamespaceRef) (name : String) :
    world.Pruned (fun other removed => decide (other = ref) && removed == name)
      (world.removeMember ref name) where
  rest := rfl
  spaceCount := Store.size_update ..
  isModule _ := Store.proj_get_update _ _ _ Namespace.isModule fun _ => rfl
  entryOf _ := Store.proj_get_update _ _ _ Namespace.entry fun _ => rfl
  rows other := by
    rw [removeMember, space_updateSpace]
    split
    · next h => simp [h.1, Table.erase]
    · next h =>
      by_cases hother : other = ref
      · have hsize : world.spaces.size ≤ other.index :=
          Nat.le_of_not_lt fun hlt => h ⟨hother, hother ▸ hlt⟩
        rw [world.space_of_size_le hsize]
        rfl
      · exact (List.filter_eq_self.mpr fun _ _ => by simp [hother]).symm

/-- Removing a name from some namespaces. -/
theorem pruned_foldl_removeMember (spaces : List NamespaceRef) (name : String) :
    world.Pruned (fun other removed => decide (other ∈ spaces) && removed == name)
      (spaces.foldl (fun world space => world.removeMember space name) world) := by
  induction spaces generalizing world with
  | nil =>
    simpa using Pruned.refl world
  | cons space rest ih =>
    have hboth := (world.pruned_removeMember space name).trans (ih (world.removeMember space name))
    have hremoves : (fun (other : NamespaceRef) (removed : String) =>
        decide (other ∈ space :: rest) && removed == name) = fun other removed =>
          (decide (other = space) && removed == name) || (decide (other ∈ rest) && removed == name) := by
      funext other removed
      by_cases hspace : other = space <;> simp [hspace]
    rw [hremoves]
    exact hboth

/-- Removing some names from some namespaces. -/
theorem pruned_foldl_written (spaces : List NamespaceRef) (names : List String) :
    world.Pruned (fun other removed => decide (other ∈ spaces) && names.contains removed)
      (names.foldl (fun world name =>
        spaces.foldl (fun world space => world.removeMember space name) world) world) := by
  induction names generalizing world with
  | nil =>
    simpa using Pruned.refl world
  | cons name rest ih =>
    have hboth := (world.pruned_foldl_removeMember spaces name).trans (ih _)
    have hremoves : (fun (other : NamespaceRef) (removed : String) =>
        decide (other ∈ spaces) && (name :: rest).contains removed) = fun other removed =>
          (decide (other ∈ spaces) && removed == name) ||
            (decide (other ∈ spaces) && rest.contains removed) := by
      funext other removed
      rw [List.contains_cons, Bool.and_or_distrib_left]
    rw [hremoves]
    exact hboth

/-! ### Batches that are reverted -/

/-- Batches are put to an end, the names that they wrote are removed from their namespaces, and
nothing else is different. -/
structure Reverted (batches : List BatchRef) (before after : World) : Prop where
  rest : after = { before with spaces := after.spaces, batches := after.batches }
  spaceCount : after.spaces.size = before.spaces.size
  isModule : ∀ ref, (after.space ref).isModule = (before.space ref).isModule
  entryOf : ∀ ref, (after.space ref).entry = (before.space ref).entry
  rows : ∀ ref, (after.space ref).members.rows = (before.space ref).members.rows.filter fun row =>
    !batches.any fun batch => decide (ref ∈ (before.batch batch).spaces) &&
      (before.batch batch).written.contains row.1
  batchCount : after.batches.size = before.batches.size
  ended : ∀ ref ∈ batches, (after.batch ref).isActive = false
  kept : ∀ ref, ref ∉ batches → after.batch ref = before.batch ref
  same : ∀ ref, after.batch ref = { before.batch ref with isActive := (after.batch ref).isActive }

theorem reverted_revert (ref : BatchRef) : world.Reverted [ref] (world.revert ref) := by
  let ended := world.updateBatch ref fun batch => { batch with isActive := false }
  have hpruned : ended.Pruned (fun other removed => decide (other ∈ (world.batch ref).spaces) &&
      (world.batch ref).written.contains removed) (world.revert ref) :=
    ended.pruned_foldl_written (world.batch ref).spaces (world.batch ref).written
  have hbatches : (world.revert ref).batches = ended.batches :=
    (congrArg World.batches hpruned.rest :)
  have hbatch (other : BatchRef) : (world.revert ref).batch other =
      if other = ref ∧ ref.index < world.batches.size then
        { world.batch ref with isActive := false } else world.batch other :=
    (congrArg (Store.get · other.index) hbatches).trans (world.batch_updateBatch ref _ other)
  refine ⟨?_, hpruned.spaceCount, hpruned.isModule, hpruned.entryOf, fun other => ?_, ?_, ?_, ?_, ?_⟩
  · rw [hbatches]
    exact hpruned.rest
  · refine (hpruned.rows other).trans (List.filter_congr fun row _ => ?_)
    rw [List.any_cons, List.any_nil, Bool.or_false]
  · rw [hbatches]
    exact Store.size_update ..
  · intro other hother
    obtain rfl := List.mem_singleton.mp hother
    rw [hbatch]
    split
    · rfl
    · next h =>
      rw [world.batch_of_size_le (Nat.le_of_not_lt fun hlt => h ⟨rfl, hlt⟩)]
      rfl
  · intro other hother
    rw [hbatch, if_neg fun h => hother (List.mem_singleton.mpr h.1)]
  · intro other
    rw [hbatch]
    split
    · next h => rw [h.1]
    · rfl

theorem Reverted.nil : world.Reverted [] world where
  rest := rfl
  spaceCount := rfl
  isModule _ := rfl
  entryOf _ := rfl
  rows _ := (List.filter_eq_self.mpr fun _ _ => rfl).symm
  batchCount := rfl
  ended _ h := absurd h List.not_mem_nil
  kept _ _ := rfl
  same _ := rfl

theorem Reverted.append {batches batches' : List BatchRef} {first second third : World}
    (h : first.Reverted batches second) (h' : second.Reverted batches' third) :
    first.Reverted (batches ++ batches') third where
  rest := by
    rw [h'.rest, h.rest]
  spaceCount := h'.spaceCount.trans h.spaceCount
  isModule ref := (h'.isModule ref).trans (h.isModule ref)
  entryOf ref := (h'.entryOf ref).trans (h.entryOf ref)
  rows ref := by
    rw [h'.rows, h.rows, List.filter_filter]
    refine List.filter_congr fun row _ => ?_
    rw [List.any_append, Bool.not_or, Bool.and_comm]
    congr 2
    refine List.any_congr rfl fun batch => ?_
    rw [h.same]
  batchCount := h'.batchCount.trans h.batchCount
  ended ref href := by
    by_cases hlast : ref ∈ batches'
    · exact h'.ended ref hlast
    · rw [h'.kept ref hlast]
      exact h.ended ref ((List.mem_append.mp href).resolve_right hlast)
  kept ref href := by
    rw [List.mem_append, not_or] at href
    rw [h'.kept ref href.2, h.kept ref href.1]
  same ref := by
    rw [h'.same, h.same]

theorem reverted_foldl (batches : List BatchRef) :
    world.Reverted batches (batches.foldl revert world) := by
  induction batches generalizing world with
  | nil => exact .nil world
  | cons batch rest ih => exact (world.reverted_revert batch).append (ih _)

/-! ### Registration -/

/-- The batches at an entry that have a key. -/
def replacedBy (entry : EntryRef) (key : Option String) : List BatchRef :=
  (world.entry entry).batches.filter fun batch => key.isSome && (world.batch batch).key == key

/-- The key under which a module registers a batch: its own, with its id before it. -/
def keyOf (module : ModuleRef) (key : Option String) : Option String :=
  key.map (scopedKey (world.module module).id)

/-- A batch is added at an entry, behind those that are left there, batches are reverted and no longer
listed there, and nothing else is different. -/
structure Renewed (entry : EntryRef) (replaced : List BatchRef) (batch : Batch)
    (before after : World) : Prop where
  rest : after = { before with
    spaces := after.spaces, batches := after.batches, entries := after.entries }
  spaceCount : after.spaces.size = before.spaces.size
  isModule : ∀ ref, (after.space ref).isModule = (before.space ref).isModule
  entryOf : ∀ ref, (after.space ref).entry = (before.space ref).entry
  rows : ∀ ref, (after.space ref).members.rows = (before.space ref).members.rows.filter fun row =>
    !replaced.any fun batch => decide (ref ∈ (before.batch batch).spaces) &&
      (before.batch batch).written.contains row.1
  batchCount : after.batches.size = before.batches.size + 1
  added : after.batch ⟨before.batches.size⟩ = batch
  ended : ∀ ref : BatchRef, ref.index < before.batches.size → ref ∈ replaced →
    (after.batch ref).isActive = false
  kept : ∀ ref : BatchRef, ref.index ≠ before.batches.size → ref ∉ replaced →
    after.batch ref = before.batch ref
  same : ∀ ref : BatchRef, ref.index ≠ before.batches.size →
    after.batch ref = { before.batch ref with isActive := (after.batch ref).isActive }
  entryCount : after.entries.size = before.entries.size
  listed : entry.index < before.entries.size → (after.entry entry).batches =
    (before.entry entry).batches.filter (fun ref => !replaced.contains ref) ++
      [⟨before.batches.size⟩]
  entries : ∀ ref, after.entry ref = { before.entry ref with batches := (after.entry ref).batches }
  elsewhere : ∀ ref, ref ≠ entry ∨ before.entries.size ≤ ref.index →
    (after.entry ref).batches = (before.entry ref).batches

/-- What is listed at each entry. -/
theorem Renewed.batches {entry : EntryRef} {replaced : List BatchRef} {batch : Batch}
    {before after : World} (h : before.Renewed entry replaced batch after) (other : EntryRef) :
    (after.entry other).batches = if other = entry ∧ entry.index < before.entries.size then
      (before.entry entry).batches.filter (fun ref => !replaced.contains ref) ++
        [⟨before.batches.size⟩] else (before.entry other).batches := by
  split
  · next hentry =>
    rw [hentry.1]
    exact h.listed hentry.2
  · next hentry =>
    refine h.elsewhere other ?_
    by_cases hother : other = entry
    · exact .inr (Nat.le_of_not_lt fun hlt => hentry ⟨hother, hother ▸ hlt⟩)
    · exact .inl hother

/-- The entry that lists a new batch behind those of the old ones that are left. -/
def renewedEntry (replaced : List BatchRef) (added : BatchRef) (entry : Entry) : Entry :=
  { entry with batches := entry.batches.filter (fun batch => !replaced.contains batch) ++ [added] }

theorem Reverted.renewed {replaced : List BatchRef} {before reverted : World}
    (h : before.Reverted replaced reverted) (entry : EntryRef) (batch : Batch) :
    before.Renewed entry replaced batch ((reverted.newBatch batch).2.updateEntry entry
      (renewedEntry replaced ⟨reverted.batches.size⟩)) := by
  have hentries : reverted.entries = before.entries := (congrArg World.entries h.rest :)
  have hbatch (ref : BatchRef) : ((reverted.newBatch batch).2.updateEntry entry
      (renewedEntry replaced ⟨reverted.batches.size⟩)).batch ref =
        if ref.index = before.batches.size then batch else reverted.batch ref :=
    h.batchCount ▸ Store.get_add reverted.batches batch ref.index
  have hentry (ref : EntryRef) : ((reverted.newBatch batch).2.updateEntry entry
      (renewedEntry replaced ⟨reverted.batches.size⟩)).entry ref =
        if ref = entry ∧ entry.index < before.entries.size then
          renewedEntry replaced ⟨before.batches.size⟩ (before.entry entry) else before.entry ref := by
    rw [entry_updateEntry, ← h.batchCount]
    change (if ref = entry ∧ entry.index < reverted.entries.size then
      renewedEntry replaced _ (reverted.entries.get entry.index) else
        reverted.entries.get ref.index) = _
    rw [hentries]
    rfl
  refine
    { rest := ?_, spaceCount := h.spaceCount, isModule := h.isModule, entryOf := h.entryOf
      rows := h.rows, batchCount := ?_, added := ?_, ended := fun ref hlt href => ?_
      kept := fun ref hne href => ?_, same := fun ref hne => ?_, entryCount := ?_
      listed := fun hlt => ?_, entries := fun ref => ?_, elsewhere := fun ref href => ?_ }
  · rw [h.rest]
    rfl
  · exact (Store.size_add _ _).trans (congrArg (· + 1) h.batchCount)
  · rw [hbatch, if_pos rfl]
  · rw [hbatch, if_neg (Nat.ne_of_lt hlt)]
    exact h.ended ref href
  · rw [hbatch, if_neg hne]
    exact h.kept ref href
  · rw [hbatch, if_neg hne]
    exact h.same ref
  · exact (Store.size_update ..).trans (congrArg Store.size hentries)
  · rw [hentry, if_pos ⟨rfl, hlt⟩]
    rfl
  · rw [hentry]
    split
    · next href => rw [href.1]; rfl
    · rfl
  · rw [hentry, if_neg]
    rintro ⟨rfl, hlt⟩
    exact href.elim (· rfl) (Nat.not_le_of_lt hlt)

theorem renewed_addConsumers (entry : EntryRef) (module : ModuleRef) (consumers : Table Consumer)
    (key : Option String) (spaces : List NamespaceRef) :
    world.Renewed entry (world.replacedBy entry (world.keyOf module key))
      ⟨world.keyOf module key, module, consumers, spaces, true, [], []⟩
      (world.addConsumers entry module consumers key spaces) :=
  (world.reverted_foldl _).renewed entry _

/-! ### What leaves batches alone -/

/-- The batches and the lists of them are the same, no consumer was called, and slots with different
names keep them different. -/
structure Elsewhere (before after : World) : Prop where
  batchCount : after.batches.size = before.batches.size
  batch : ∀ ref, after.batch ref = before.batch ref
  entryCount : before.entries.size ≤ after.entries.size
  listed : ∀ ref, (after.entry ref).batches = (before.entry ref).batches
  slots : ∀ ref, (before.entry ref).slots.names.Nodup → (after.entry ref).slots.names.Nodup
  calls : after.calls.filter Callback.isConsumer = before.calls.filter Callback.isConsumer

/-! ### Batches in order -/

/-- The batches at each entry are active, and no two of them have one key; a batch is at one entry
only. Names of slots are different. -/
structure InOrder : Prop where
  active : ∀ {entry batch}, batch ∈ (world.entry entry).batches →
    (world.batch batch).isActive = true
  apart : ∀ {entry other batch}, batch ∈ (world.entry entry).batches →
    batch ∈ (world.entry other).batches → entry = other
  distinct : ∀ entry, (world.entry entry).batches.Nodup
  keys : ∀ {entry first second key}, first ∈ (world.entry entry).batches →
    second ∈ (world.entry entry).batches → (world.batch first).key = some key →
    (world.batch second).key = some key → first = second
  slots : ∀ entry, (world.entry entry).slots.names.Nodup

variable {world}

namespace InOrder

theorem lt (h : world.InOrder) {entry : EntryRef} {batch : BatchRef}
    (hlisted : batch ∈ (world.entry entry).batches) : batch.index < world.batches.size :=
  world.lt_of_isActive (h.active hlisted)

theorem elsewhere {after : World} (h : world.InOrder) (helsewhere : world.Elsewhere after) :
    after.InOrder where
  active hlisted := by
    rw [helsewhere.listed] at hlisted
    rw [helsewhere.batch]
    exact h.active hlisted
  apart hlisted hlisted' := by
    rw [helsewhere.listed] at hlisted hlisted'
    exact h.apart hlisted hlisted'
  distinct entry := by
    rw [helsewhere.listed]
    exact h.distinct entry
  keys hfirst hsecond hkey hkey' := by
    rw [helsewhere.listed] at hfirst hsecond
    rw [helsewhere.batch] at hkey hkey'
    exact h.keys hfirst hsecond hkey hkey'
  slots entry := helsewhere.slots entry (h.slots entry)

/-- Deeds that change no registration keep batches in order. -/
theorem keeps {after : World} (h : world.InOrder) (hkeeps : world.Keeps after) : after.InOrder where
  active hlisted := by
    rw [hkeeps.batches] at hlisted
    rw [hkeeps.isActive]
    exact h.active hlisted
  apart hlisted hlisted' := by
    rw [hkeeps.batches] at hlisted hlisted'
    exact h.apart hlisted hlisted'
  distinct entry := by
    rw [hkeeps.batches]
    exact h.distinct entry
  keys hfirst hsecond hkey hkey' := by
    rw [hkeeps.batches] at hfirst hsecond
    rw [hkeeps.key] at hkey hkey'
    exact h.keys hfirst hsecond hkey hkey'
  slots entry := by
    rw [hkeeps.slotNames]
    exact h.slots entry

/-- A batch that is replaced is listed at the entry where that happens. -/
theorem mem_replacedBy {entry : EntryRef} {key : Option String} {ref : BatchRef} :
    ref ∈ world.replacedBy entry key ↔
      ref ∈ (world.entry entry).batches ∧ key.isSome = true ∧ (world.batch ref).key = key := by
  simp [replacedBy]

/-- What is listed after a registration: what was listed and is not replaced, and the new batch. -/
theorem mem_renewed {after : World} {entry : EntryRef} {key : Option String} {batch : Batch}
    (h : world.InOrder) (hrenewed : world.Renewed entry (world.replacedBy entry key) batch after)
    {other : EntryRef} {ref : BatchRef} :
    ref ∈ (after.entry other).batches ↔
      (ref ∈ (world.entry other).batches ∧ ref ∉ world.replacedBy entry key) ∨
        (other = entry ∧ entry.index < world.entries.size ∧ ref = ⟨world.batches.size⟩) := by
  rw [hrenewed.batches]
  split
  · next hentry =>
    obtain ⟨rfl, hlt⟩ := hentry
    simp [hlt]
  · next hentry =>
    refine ⟨fun hlisted => .inl ⟨hlisted, fun hreplaced => ?_⟩, ?_⟩
    · -- A batch that is listed at another entry is not replaced, nor is one at an entry that is none.
      obtain rfl := h.apart hlisted (mem_replacedBy.mp hreplaced).1
      refine hentry ⟨rfl, Nat.lt_of_not_le fun hle => ?_⟩
      rw [world.entry_of_size_le hle] at hlisted
      cases hlisted
    · rintro (⟨hlisted, -⟩ | ⟨hother, hlt, -⟩)
      · exact hlisted
      · exact absurd ⟨hother, hlt⟩ hentry

/-- A registration keeps batches in order: what has its key is replaced. -/
theorem renewed {after : World} {entry : EntryRef} {batch : Batch} (h : world.InOrder)
    (hrenewed : world.Renewed entry (world.replacedBy entry batch.key) batch after)
    (hactive : batch.isActive = true) : after.InOrder := by
  have hkept {other : EntryRef} {ref : BatchRef} (hlisted : ref ∈ (world.entry other).batches)
      (hreplaced : ref ∉ world.replacedBy entry batch.key) : after.batch ref = world.batch ref :=
    hrenewed.kept ref (Nat.ne_of_lt (h.lt hlisted)) hreplaced
  have hnew {other : EntryRef} : (⟨world.batches.size⟩ : BatchRef) ∉ (world.entry other).batches :=
    fun hlisted => Nat.lt_irrefl _ (h.lt hlisted)
  have hmem {other : EntryRef} {ref : BatchRef} : ref ∈ (after.entry other).batches ↔ _ :=
    h.mem_renewed hrenewed
  constructor
  · intro other ref hlisted
    rcases hmem.mp hlisted with ⟨hlisted, hreplaced⟩ | ⟨-, -, rfl⟩
    · rw [hkept hlisted hreplaced]
      exact h.active hlisted
    · rw [hrenewed.added]
      exact hactive
  · intro first second ref hfirst hsecond
    rcases hmem.mp hfirst with ⟨hlisted, -⟩ | ⟨hentry, -, rfl⟩ <;>
      rcases hmem.mp hsecond with ⟨hlisted', -⟩ | ⟨hentry', -, href⟩
    · exact h.apart hlisted hlisted'
    · exact absurd (href ▸ hlisted) hnew
    · exact absurd hlisted' hnew
    · exact hentry.trans hentry'.symm
  · intro other
    rw [hrenewed.batches]
    split
    · refine List.nodup_append.mpr ⟨(h.distinct entry).filter _, by simp, ?_⟩
      intro ref hlisted added hadded heq
      obtain rfl := List.mem_singleton.mp hadded
      exact hnew (heq ▸ (List.mem_filter.mp hlisted).1)
    · exact h.distinct other
  · intro other first second key hfirst hsecond hkey hkey'
    -- Whatever had the key of the new batch is replaced.
    have hfree {ref : BatchRef} (hentry : other = entry) (hbatch : batch.key = some key)
        (hlisted : ref ∈ (world.entry other).batches)
        (hreplaced : ref ∉ world.replacedBy entry batch.key)
        (href : (after.batch ref).key = some key) : False := by
      rw [hkept hlisted hreplaced] at href
      refine hreplaced (mem_replacedBy.mpr ⟨hentry ▸ hlisted, by rw [hbatch]; rfl, ?_⟩)
      exact href.trans hbatch.symm
    rcases hmem.mp hfirst with ⟨hlisted, hreplaced⟩ | ⟨hentry, -, rfl⟩ <;>
      rcases hmem.mp hsecond with ⟨hlisted', hreplaced'⟩ | ⟨hentry', -, rfl⟩
    · rw [hkept hlisted hreplaced] at hkey
      rw [hkept hlisted' hreplaced'] at hkey'
      exact h.keys hlisted hlisted' hkey hkey'
    · rw [hrenewed.added] at hkey'
      exact (hfree hentry' hkey' hlisted hreplaced hkey).elim
    · rw [hrenewed.added] at hkey
      exact (hfree hentry hkey hlisted' hreplaced' hkey').elim
    · rfl
  · intro other
    rw [hrenewed.entries]
    exact h.slots other

end InOrder

end World

/-- A world without entries has its batches in order. -/
theorem inOrder_ofHost (host : Host) : (World.ofHost host).InOrder where
  active h := absurd h List.not_mem_nil
  apart h := absurd h List.not_mem_nil
  distinct _ := List.nodup_nil
  keys h := absurd h List.not_mem_nil
  slots _ := List.nodup_nil

/-! ### Histories -/

/-- The deeds of a registration: some batches are replaced, and then the new one is there. -/
def registration (replaced : List BatchRef) (added : BatchRef) : List Deed :=
  replaced.map .replaced ++ [.registered added]

/-- A run of a world as its batches see it. The list holds the deeds, first things first. -/
inductive History (start : World) : List Deed → World → Prop
  | start : History start [] start
  | elsewhere {log : List Deed} {world after : World} (h : History start log world)
      (helsewhere : world.Elsewhere after) : History start log after
  | wrote {log : List Deed} {world : World} (batch : BatchRef) (name : String) (value : Value)
      (h : History start log world) (hactive : (world.batch batch).isActive = true)
      (hspaces : (world.batch batch).spaces ≠ []) :
      History start (log ++ [.wrote batch name]) (world.writeThrough batch name value)
  | called {log : List Deed} {world : World} (batch : BatchRef) (slot name : String)
      (value : Value) (h : History start log world)
      (hactive : (world.batch batch).isActive = true) :
      History start (log ++ [.called batch slot name value])
        (world.handOver batch slot name value)
  | registered {log : List Deed} {world : World} (entry : EntryRef) (module : ModuleRef)
      (consumers : Table Consumer) (key : Option String) (spaces : List NamespaceRef)
      (h : History start log world) :
      History start
        (log ++ registration (world.replacedBy entry (world.keyOf module key)) ⟨world.batches.size⟩)
        (world.addConsumers entry module consumers key spaces)

namespace History

variable {start middle world : World} {log log' : List Deed}

theorem trans (h : History start log middle) (h' : History middle log' world) :
    History start (log ++ log') world := by
  induction h' with
  | start => rwa [List.append_nil]
  | elsewhere _ helsewhere ih => exact .elsewhere ih helsewhere
  | wrote batch name value _ hactive hspaces ih =>
    rw [← List.append_assoc]
    exact .wrote batch name value ih hactive hspaces
  | called batch slot name value _ hactive ih =>
    rw [← List.append_assoc]
    exact .called batch slot name value ih hactive
  | registered entry module consumers key spaces _ ih =>
    rw [← List.append_assoc]
    exact .registered entry module consumers key spaces ih

/-- Along a history batches stay in order. -/
theorem inOrder (h : History start log world) (hstart : start.InOrder) : world.InOrder := by
  induction h with
  | start => exact hstart
  | elsewhere _ helsewhere ih => exact ih.elsewhere helsewhere
  | @wrote _ world batch name value _ _ _ ih => exact ih.keeps (world.keeps_writeThrough ..)
  | @called _ world batch slot name value _ _ ih => exact ih.keeps (world.keeps_handOver ..)
  | @registered _ world entry module consumers key spaces _ ih =>
    let batch : Batch := ⟨world.keyOf module key, module, consumers, spaces, true, [], []⟩
    have hrenewed : world.Renewed entry (world.replacedBy entry batch.key) batch
        (world.addConsumers entry module consumers key spaces) :=
      world.renewed_addConsumers entry module consumers key spaces
    exact ih.renewed hrenewed rfl

/-- A batch that was replaced exists and is at its end. -/
theorem ended (h : History start log world) (hstart : start.InOrder) {batch : BatchRef}
    (hreplaced : .replaced batch ∈ log) :
    batch.index < world.batches.size ∧ (world.batch batch).isActive = false := by
  induction h with
  | start => cases hreplaced
  | elsewhere _ helsewhere ih =>
    rw [helsewhere.batch, helsewhere.batchCount]
    exact ih hreplaced
  | @wrote _ world other name value _ _ _ ih =>
    have hkeeps := world.keeps_writeThrough other name value
    rw [hkeeps.isActive, hkeeps.batchCount]
    exact ih (by simpa using hreplaced)
  | @called _ world other slot name value _ _ ih =>
    have hkeeps := world.keeps_handOver other slot name value
    rw [hkeeps.isActive, hkeeps.batchCount]
    exact ih (by simpa using hreplaced)
  | @registered _ world entry module consumers key spaces h ih =>
    have hrenewed := world.renewed_addConsumers entry module consumers key spaces
    rw [hrenewed.batchCount]
    rcases List.mem_append.mp hreplaced with hbefore | hnow
    · obtain ⟨hlt, hended⟩ := ih hbefore
      refine ⟨Nat.lt_succ_of_lt hlt, ?_⟩
      by_cases hagain : batch ∈ world.replacedBy entry (world.keyOf module key)
      · exact hrenewed.ended batch hlt hagain
      · rw [hrenewed.kept batch (Nat.ne_of_lt hlt) hagain]
        exact hended
    · have hmem : batch ∈ world.replacedBy entry (world.keyOf module key) := by
        simpa [registration] using hnow
      have hlt := (h.inOrder hstart).lt (World.InOrder.mem_replacedBy.mp hmem).1
      exact ⟨Nat.lt_succ_of_lt hlt, hrenewed.ended batch hlt hmem⟩

/-- From a world without batches, a batch that is at its end was replaced. -/
theorem replaced_of_ended (h : History start log world) (hstart : start.batches.size = 0)
    {batch : BatchRef} (hlt : batch.index < world.batches.size)
    (hended : (world.batch batch).isActive = false) : .replaced batch ∈ log := by
  induction h with
  | start => omega
  | elsewhere _ helsewhere ih =>
    rw [helsewhere.batchCount] at hlt
    rw [helsewhere.batch] at hended
    exact ih hlt hended
  | @wrote _ world other name value _ _ _ ih =>
    have hkeeps := world.keeps_writeThrough other name value
    rw [hkeeps.batchCount] at hlt
    rw [hkeeps.isActive] at hended
    exact List.mem_append_left _ (ih hlt hended)
  | @called _ world other slot name value _ _ ih =>
    have hkeeps := world.keeps_handOver other slot name value
    rw [hkeeps.batchCount] at hlt
    rw [hkeeps.isActive] at hended
    exact List.mem_append_left _ (ih hlt hended)
  | @registered _ world entry module consumers key spaces _ ih =>
    have hrenewed := world.renewed_addConsumers entry module consumers key spaces
    by_cases hreplaced : batch ∈ world.replacedBy entry (world.keyOf module key)
    · exact List.mem_append_right _
        (List.mem_append_left _ (List.mem_map_of_mem hreplaced))
    · by_cases hnew : batch.index = world.batches.size
      · obtain rfl : batch = ⟨world.batches.size⟩ := congrArg BatchRef.mk hnew
        rw [hrenewed.added] at hended
        cases hended
      · rw [hrenewed.batchCount] at hlt
        rw [hrenewed.kept batch hnew hreplaced] at hended
        exact List.mem_append_left _ (ih (by omega) hended)

/-- What consumers were called with is what the history tells. -/
theorem calls (h : History start log world) :
    world.calls.filter Callback.isConsumer =
      (log.filterMap Deed.call?).reverse ++ start.calls.filter Callback.isConsumer := by
  induction h with
  | start => rfl
  | elsewhere _ helsewhere ih => rw [helsewhere.calls, ih]
  | @wrote _ world batch name value _ _ _ ih =>
    rw [world.calls_writeThrough, ih]
    simp [Deed.call?]
  | @called _ world batch slot name value _ _ ih =>
    rw [world.calls_handOver, List.filter_cons_of_pos rfl, ih]
    simp [Deed.call?]
  | @registered _ world entry module consumers key spaces _ ih =>
    have hcalls : (world.addConsumers entry module consumers key spaces).calls = world.calls :=
      (congrArg World.calls (world.renewed_addConsumers entry module consumers key spaces).rest :)
    have hnone : (registration (world.replacedBy entry (world.keyOf module key))
        ⟨world.batches.size⟩).filterMap Deed.call? = [] := by
      refine List.filterMap_eq_nil_iff.mpr fun deed hdeed => ?_
      rcases List.mem_append.mp hdeed with hreplaced | hadded
      · obtain ⟨batch, -, rfl⟩ := List.mem_map.mp hreplaced
        rfl
      · obtain rfl := List.mem_singleton.mp hadded
        rfl
    rw [hcalls, ih, List.filterMap_append, hnone, List.append_nil]

end History

/-- After a batch was replaced, nothing is done to it or through it. -/
def Deed.Respects (first second : Deed) : Prop :=
  ∀ batch, first = .replaced batch → second.batch ≠ batch

theorem Deed.respects_of_isActive {world : World} {log : List Deed} {deed : Deed}
    (hended : ∀ batch, .replaced batch ∈ log → (world.batch batch).isActive = false)
    (hactive : (world.batch deed.batch).isActive = true) :
    ∀ first ∈ log, first.Respects deed := by
  rintro _ hmem batch rfl rfl
  rw [hended _ hmem] at hactive
  cases hactive

namespace History

variable {start world : World} {log : List Deed}

/-- No deed follows that is about a batch that was replaced. -/
theorem pairwise_respects (h : History start log world) (hstart : start.InOrder) :
    log.Pairwise Deed.Respects := by
  induction h with
  | start => exact .nil
  | elsewhere _ _ ih => exact ih
  | @wrote log _ batch name value h hactive _ ih =>
    have hrespects : ∀ first ∈ log, first.Respects (.wrote batch name) :=
      Deed.respects_of_isActive (fun _ hmem => (h.ended hstart hmem).2) hactive
    exact List.pairwise_append.mpr ⟨ih, List.pairwise_singleton _ _, by simpa using hrespects⟩
  | @called log _ batch slot name value h hactive ih =>
    have hrespects : ∀ first ∈ log, first.Respects (.called batch slot name value) :=
      Deed.respects_of_isActive (fun _ hmem => (h.ended hstart hmem).2) hactive
    exact List.pairwise_append.mpr ⟨ih, List.pairwise_singleton _ _, by simpa using hrespects⟩
  | @registered log world entry module consumers key spaces h ih =>
    have horder := h.inOrder hstart
    refine List.pairwise_append.mpr ⟨ih, ?_, ?_⟩
    · -- Each batch is replaced once, and the new one is none of those.
      refine List.pairwise_append.mpr ⟨?_, List.pairwise_singleton _ _, ?_⟩
      · have hdistinct := (horder.distinct entry).filter fun batch =>
          (world.keyOf module key).isSome && (world.batch batch).key == world.keyOf module key
        refine List.pairwise_map.mpr (hdistinct.imp fun hne => ?_)
        rintro _ ⟨⟩ heq
        exact hne heq.symm
      · rintro _ hfirst _ hsecond batch rfl heq
        obtain rfl := List.mem_singleton.mp hsecond
        have hmem : batch ∈ world.replacedBy entry (world.keyOf module key) := by
          simpa using hfirst
        have hlt := horder.lt (World.InOrder.mem_replacedBy.mp hmem).1
        rw [← heq] at hlt
        exact Nat.lt_irrefl _ hlt
    · rintro _ hfirst deed hsecond batch rfl heq
      obtain ⟨hlt, hended⟩ := h.ended hstart hfirst
      rcases List.mem_append.mp hsecond with hreplaced | hadded
      · obtain ⟨other, hother, rfl⟩ := List.mem_map.mp hreplaced
        have hactive := horder.active (World.InOrder.mem_replacedBy.mp hother).1
        rw [show other = batch from heq, hended] at hactive
        cases hactive
      · obtain rfl := List.mem_singleton.mp hadded
        rw [← heq] at hlt
        exact Nat.lt_irrefl _ hlt

/-- What a batch notes as written is what it has written. -/
theorem mem_written_iff (h : History start log world) (hstart : start.batches.size = 0)
    (batch : BatchRef) (name : String) :
    name ∈ (world.batch batch).written ↔ .wrote batch name ∈ log := by
  induction h with
  | start =>
    rw [start.batch_of_size_le (by omega)]
    exact iff_of_false List.not_mem_nil List.not_mem_nil
  | elsewhere _ helsewhere ih => rw [helsewhere.batch, ih]
  | @wrote _ world other otherName value _ hactive hspaces ih =>
    rw [world.batch_writeThrough hspaces, List.mem_append, List.mem_singleton, ← ih]
    by_cases hother : batch = other
    · subst hother
      rw [if_pos ⟨rfl, world.lt_of_isActive hactive⟩, List.mem_insert_iff, Deed.wrote.injEq]
      exact ⟨fun h => h.symm.imp_right fun h => ⟨rfl, h⟩, fun h => h.symm.imp_left And.right⟩
    · rw [if_neg fun h => hother h.1, Deed.wrote.injEq]
      exact ⟨.inl, fun h => h.resolve_right fun h => hother h.1⟩
  | @called _ world other slot otherName value _ _ ih =>
    have hwritten : ((world.handOver other slot otherName value).batch batch).written =
        (world.batch batch).written := Store.proj_get_update _ _ _ Batch.written fun _ => rfl
    rw [hwritten, ih]
    simp
  | @registered _ world entry module consumers key spaces _ ih =>
    have hrenewed := world.renewed_addConsumers entry module consumers key spaces
    rw [List.mem_append, ← ih]
    have hlog : .wrote batch name ∉
        registration (world.replacedBy entry (world.keyOf module key)) ⟨world.batches.size⟩ := by
      simp [registration]
    by_cases hnew : batch.index = world.batches.size
    · obtain rfl : batch = ⟨world.batches.size⟩ := by
        cases batch
        exact congrArg BatchRef.mk hnew
      have hnone : world.batch ⟨world.batches.size⟩ = default :=
        world.batch_of_size_le (Nat.le_refl _)
      rw [hrenewed.added, hnone]
      exact ⟨nofun, fun h => h.elim (absurd · List.not_mem_nil) (absurd · hlog)⟩
    · rw [hrenewed.same batch hnew]
      exact ⟨.inl, fun h => h.resolve_right hlog⟩

end History

end ModuleLinkage.Ledger
