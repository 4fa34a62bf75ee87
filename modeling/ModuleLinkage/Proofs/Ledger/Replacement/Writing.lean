import Mathlib.Data.List.Basic
import ModuleLinkage.Proofs.Ledger.Replacement.History
import ModuleLinkage.Proofs.Ledger.Commands

/-!
# What deliveries write

What variables hold and what namespaces show are the cells of a world (`Cell`). Where consumers do
nothing but write cells (`Consumer.OnlyWrites`), so does a whole round over batches, and its writes can
be listed beforehand (`World.deliveries`): for each value that concerns a batch, one write for each of
the batch's namespaces, and the writes of the consumers that did not receive the value last
(`meets_deliverToBatches_wrote`). A cell holds what was written to it last (`World.Wrote`).
-/

set_option autoImplicit false

namespace ModuleLinkage.Ledger

/-! ### Cells -/

/-- A place that holds a value: a variable, or a name in a namespace. -/
inductive Cell where
  | binding (ref : BindingRef)
  | member (space : NamespaceRef) (name : String)
  deriving DecidableEq

/-- A value that is put into a cell. -/
abbrev Cell.Write : Type :=
  Cell × Value

/-- What a cell holds. -/
def World.cell (world : World) : Cell → Option Value
  | .binding ref => world.binding ref
  | .member space name => world.member? space name

namespace Cell

/-- The value that was written to a cell last. -/
def latest? (cell : Cell) (log : List Cell.Write) : Option Value :=
  (log.reverse.find? fun write => decide (write.1 = cell)).map (·.2)

theorem latest?_append (cell : Cell) (first second : List Cell.Write) :
    cell.latest? (first ++ second) = (cell.latest? second).or (cell.latest? first) := by
  rw [latest?, List.reverse_append, List.find?_append]
  unfold latest?
  cases second.reverse.find? _ <;> rfl

theorem latest?_singleton (cell other : Cell) (value : Value) :
    cell.latest? [(other, value)] = if cell = other then some value else none := by
  by_cases h : cell = other
  · simp [latest?, h]
  · have h' : ¬ other = cell := fun heq => h heq.symm
    simp [latest?, h, h']

theorem mem_of_latest? {cell : Cell} {log : List Cell.Write} {value : Value}
    (h : cell.latest? log = some value) : (cell, value) ∈ log := by
  obtain ⟨write, hfind, rfl⟩ := Option.map_eq_some_iff.mp h
  have hcell : write.1 = cell := by simpa using List.find?_some hfind
  have hmem := List.mem_reverse.mp (List.mem_of_find?_eq_some hfind)
  rwa [← hcell]

theorem exists_latest? {cell : Cell} {log : List Cell.Write} {value : Value}
    (h : (cell, value) ∈ log) : ∃ last, cell.latest? log = some last := by
  cases hlast : cell.latest? log with
  | some last => exact ⟨last, rfl⟩
  | none =>
    have hnone := List.find?_eq_none.mp (Option.map_eq_none_iff.mp hlast) _ (List.mem_reverse.mpr h)
    simp at hnone

/-- Writing again some of what was written to a cell, all of it the same value, and then the same as was
written last leaves what the cell holds. -/
theorem or_latest?_append {cell : Cell} {rest again last : List Cell.Write} (before : Option Value)
    (hsub : ∀ value, (cell, value) ∈ again → (cell, value) ∈ rest)
    (hsame : ∀ value value', (cell, value) ∈ again → (cell, value') ∈ rest → value' = value) :
    (cell.latest? (again ++ last)).or ((cell.latest? (rest ++ last)).or before) =
      (cell.latest? (rest ++ last)).or before := by
  rw [latest?_append, latest?_append]
  cases cell.latest? last with
  | some value => rfl
  | none =>
    cases hagain : cell.latest? again with
    | none => rfl
    | some value =>
      have hmem := mem_of_latest? hagain
      obtain ⟨value', hrest⟩ := exists_latest? (hsub value hmem)
      obtain rfl := hsame value value' hmem (mem_of_latest? hrest)
      rw [hrest]
      rfl

end Cell

/-! ### Worlds that are written to -/

namespace World

/-- Cells were written, in the order of the log, and everything registered is the same. -/
structure Wrote (log : List Cell.Write) (before after : World) : Prop extends Keeps before after where
  cell : ∀ cell, after.cell cell = (cell.latest? log).or (before.cell cell)

variable {first second third : World} {log log' : List Cell.Write}

theorem Wrote.of_keeps (h : first.Keeps second) (hcell : ∀ cell, second.cell cell = first.cell cell) :
    first.Wrote [] second where
  toKeeps := h
  cell := hcell

theorem Asked.wrote {refs : List ProviderRef} (h : first.Asked refs second) :
    first.Wrote [] second :=
  .of_keeps h.toKeeps fun cell => match cell with
    | .binding ref => h.binding ref
    | .member space name => h.member? space name

theorem Wrote.trans (h : first.Wrote log second) (h' : second.Wrote log' third) :
    first.Wrote (log ++ log') third where
  toKeeps := h.toKeeps.trans h'.toKeeps
  cell cell := by
    rw [h'.cell, h.cell, Cell.latest?_append, Option.or_assoc]

theorem Wrote.alike_left {refs : List ProviderRef} (h' : second.Wrote log third)
    (h : first.Asked refs second) : first.Wrote log third :=
  h.wrote.trans h'

theorem Wrote.alike_right {refs : List ProviderRef} (h : first.Wrote log second)
    (h' : second.Asked refs third) : first.Wrote log third := by
  simpa using h.trans h'.wrote

/-- The writes of a value under a name into those of some namespaces that are among the first
`count` ones. -/
def memberWrites (count : Nat) (spaces : List NamespaceRef) (name : String) (value : Value) :
    List Cell.Write :=
  (spaces.filter fun space => decide (space.index < count)).map fun space =>
    (.member space name, value)

theorem mem_memberWrites {count : Nat} {spaces : List NamespaceRef} {name : String} {value : Value}
    {write : Cell.Write} : write ∈ memberWrites count spaces name value ↔
      ∃ space ∈ spaces, space.index < count ∧ write = (.member space name, value) := by
  simp only [memberWrites, List.mem_map, List.mem_filter, decide_eq_true_eq, and_assoc]
  exact exists_congr fun space => and_congr_right fun _ => and_congr_right fun _ => eq_comm

theorem latest?_memberWrites (count : Nat) (spaces : List NamespaceRef) (name : String)
    (value : Value) (cell : Cell) : cell.latest? (memberWrites count spaces name value) =
      match cell with
      | .binding _ => none
      | .member space other =>
        if space ∈ spaces ∧ space.index < count ∧ other = name then some value else none := by
  cases hlast : cell.latest? (memberWrites count spaces name value) with
  | some last =>
    obtain ⟨space, hspace, hlt, heq⟩ := mem_memberWrites.mp (Cell.mem_of_latest? hlast)
    obtain ⟨rfl, rfl⟩ := Prod.mk.inj heq
    exact (if_pos ⟨hspace, hlt, rfl⟩).symm
  | none =>
    cases cell with
    | binding ref => rfl
    | member space other =>
      refine (if_neg ?_).symm
      rintro ⟨hspace, hlt, rfl⟩
      obtain ⟨last, hlast'⟩ := Cell.exists_latest?
        (mem_memberWrites.mpr ⟨space, hspace, hlt, rfl⟩ : _ ∈ memberWrites count spaces other value)
      rw [hlast'] at hlast
      cases hlast

variable (world : World)

theorem wrote_setBinding {ref : BindingRef} (hlt : ref.index < world.bindings.size)
    (value : Value) : world.Wrote [(.binding ref, value)] (world.setBinding ref value) where
  toKeeps := world.keeps_setBinding ref value
  cell cell := by
    rw [Cell.latest?_singleton]
    cases cell with
    | binding other =>
      refine (world.binding_setBinding ref value other).trans ?_
      by_cases hother : other = ref
      · simp [hother, hlt]
      · simp [hother, World.cell]
    | member space name => rfl

/-- A value that is written through is written into the namespaces of the batch. -/
theorem wrote_writeThrough (ref : BatchRef) (name : String) (value : Value) :
    world.Wrote (memberWrites world.spaces.size (world.batch ref).spaces name value)
      (world.writeThrough ref name value) where
  toKeeps := world.keeps_writeThrough ref name value
  cell cell := by
    rw [latest?_memberWrites]
    cases cell with
    | binding other => exact world.binding_writeThrough ref name value other
    | member space other =>
      refine (world.member?_writeThrough ref name value space other).trans ?_
      dsimp only
      split <;> rfl

theorem wrote_setMember (ref : NamespaceRef) (name : String) (value : Value) :
    world.Wrote (memberWrites world.spaces.size [ref] name value)
      (world.setMember ref name value) where
  toKeeps := world.keeps_setMember ref name value
  cell cell := by
    rw [latest?_memberWrites]
    cases cell with
    | binding other => rfl
    | member space other =>
      refine (world.member?_setMember ref name value space other).trans ?_
      by_cases hspace : space = ref
      · subst hspace
        simp only [true_and, List.mem_singleton]
        split <;> rfl
      · simp [hspace, World.cell]

/-- What a round has taken is written into the namespace. -/
theorem Refreshed.wrote {space : NamespaceRef} {shown : List (String × Value)}
    (h : first.Refreshed space shown second) (hnames : (shown.map (·.1)).Nodup) :
    first.Wrote (shown.flatMap fun row => memberWrites first.spaces.size [space] row.1 row.2)
      second where
  toKeeps := h.toKeeps
  cell cell := by
    have hmem {cell : Cell} {value : Value} : (cell, value) ∈ (shown.flatMap fun row =>
        memberWrites first.spaces.size [space] row.1 row.2) ↔
          ∃ name, (name, value) ∈ shown ∧ space.index < first.spaces.size ∧
            cell = .member space name := by
      simp only [List.mem_flatMap, mem_memberWrites, List.mem_singleton, exists_eq_left]
      constructor
      · rintro ⟨row, hrow, hlt, heq⟩
        obtain ⟨rfl, rfl⟩ := Prod.mk.inj heq
        exact ⟨row.1, hrow, hlt, rfl⟩
      · rintro ⟨name, hrow, hlt, rfl⟩
        exact ⟨(name, value), hrow, hlt, rfl⟩
    cases hlast : cell.latest? _ with
    | some value =>
      obtain ⟨name, hrow, hlt, rfl⟩ := hmem.mp (Cell.mem_of_latest? hlast)
      exact h.shown hlt hnames hrow
    | none =>
      cases cell with
      | binding ref => exact h.binding ref
      | member other name =>
        by_cases hother : other = space
        · subst hother
          by_cases hname : name ∈ shown.map (·.1)
          · obtain ⟨row, hrow, rfl⟩ := List.mem_map.mp hname
            by_cases hlt : other.index < first.spaces.size
            · obtain ⟨last, hlast'⟩ := Cell.exists_latest? (hmem.mpr ⟨row.1, hrow, hlt, rfl⟩)
              rw [hlast'] at hlast
              cases hlast
            · -- Where there is no namespace, nothing is shown before or after.
              have hle := Nat.le_of_not_lt hlt
              simp only [World.cell, World.member?, Option.none_or]
              rw [first.space_of_size_le hle, second.space_of_size_le (h.spaceCount ▸ hle)]
          · exact h.otherName hname
        · exact h.otherSpace hother name

/-- The names of variables lead where they led before, and no namespace is new. -/
structure Knows (base world : World) : Prop where
  bindingNamed : ∀ {name ref}, base.names.bindings.get? name = some ref →
    world.names.bindings.get? name = some ref
  bindingCount : base.bindings.size ≤ world.bindings.size
  spaceCount : world.spaces.size = base.spaces.size

variable {world}

theorem Knows.keeps {base after : World} (h : base.Knows world) (hkeeps : world.Keeps after) :
    base.Knows after where
  bindingNamed hname := hkeeps.bindingNamed (h.bindingNamed hname)
  bindingCount := Nat.le_trans h.bindingCount hkeeps.bindingCount
  spaceCount := hkeeps.spaceCount.trans h.spaceCount

end World

/-! ### Consumers that only write -/

/-- A consumer that receives a value under a name does nothing but write cells, always the same ones;
what it writes into namespaces is the value, under its name. -/
structure Consumer.OnlyWrites (run : Runner) (base : World) (consumer : Consumer) (name : String)
    (value : Value) (log : List Cell.Write) : Prop where
  received : ∀ {space other given}, (.member space other, given) ∈ log →
    other = name ∧ given = value
  meets : ∀ world, base.Knows world → (consumer.respond run name value).Meets world
    (fun _ after => world.Wrote log after ∧ ∀ ref, after.batch ref = world.batch ref) fun _ => False

namespace Consumer

variable {run : Runner} {base : World}

/-- A consumer that assigns a variable only writes. -/
theorem onlyWrites_assign {ref : BindingRef} (hlt : ref.index < base.bindings.size) (name : String)
    (value : Value) : (Consumer.assign ref).OnlyWrites run base name value [(.binding ref, value)] where
  received hmem := by simp at hmem
  meets world hknows := by
    refine Effect.meets_modify.mpr ⟨?_, fun _ => rfl⟩
    exact world.wrote_setBinding (Nat.lt_of_lt_of_le hlt hknows.bindingCount) value

end Consumer

/-! ### Deliveries -/

namespace World

variable (world : World)

/-- Whether a batch's consumer `slot` received `value` last under `name`. -/
def hasSeen (batch : BatchRef) (slot name : String) (value : Value) : Bool :=
  ((world.seen? batch slot name).map value.same).getD false

/-- What a delivery to a batch writes, if consumers write what `writes` says: the value into each
namespace of the batch, and what those consumers write that have not received it last. -/
def deliveries (writes : Consumer → String → Value → List Cell.Write) (batch : BatchRef)
    (row : String × Value) : List Cell.Write :=
  let concerned := (world.batch batch).concerned row.1
  if concerned.isEmpty then []
  else memberWrites world.spaces.size (world.batch batch).spaces row.1 row.2 ++
    concerned.flatMap fun (slot, consumer) =>
      if world.hasSeen batch slot row.1 row.2 then [] else writes consumer row.1 row.2

variable {world} {first second third : World}

theorem hasSeen_congr {batch : BatchRef} {slot name : String}
    (h : second.seen? batch slot name = first.seen? batch slot name) (value : Value) :
    second.hasSeen batch slot name value = first.hasSeen batch slot name value := by
  rw [hasSeen, h, hasSeen]

theorem hasSeen_iff {batch : BatchRef} {slot name : String} {value : Value} :
    world.hasSeen batch slot name value = true ↔ world.seen? batch slot name = some value := by
  unfold hasSeen
  cases world.seen? batch slot name with
  | none => simp
  | some last => simpa using eq_comm

/-- Consumers of a batch were called under a name, if at all: other batches are as they were, and so
is what the other consumers have seen. -/
structure Heard (batch : BatchRef) (name : String) (slots : List String) (before after : World) :
    Prop where
  others : ∀ ref, ref ≠ batch → after.batch ref = before.batch ref
  written : (after.batch batch).written = (before.batch batch).written
  seen : ∀ {slot other}, slot ∉ slots ∨ other ≠ name →
    after.seen? batch slot other = before.seen? batch slot other

theorem Heard.refl (world : World) (batch : BatchRef) (name : String) :
    world.Heard batch name [] world where
  others _ _ := rfl
  written := rfl
  seen _ := rfl

theorem Heard.append {batch : BatchRef} {name : String} {slots slots' : List String}
    (h : first.Heard batch name slots second) (h' : second.Heard batch name slots' third) :
    first.Heard batch name (slots ++ slots') third where
  others ref href := (h'.others ref href).trans (h.others ref href)
  written := h'.written.trans h.written
  seen {slot other} hother := by
    rw [List.mem_append, not_or] at hother
    exact (h'.seen (hother.imp_left And.right)).trans (h.seen (hother.imp_left And.left))

theorem heard_handOver (world : World) (batch : BatchRef) (slot name : String) (value : Value) :
    world.Heard batch name [slot] (world.handOver batch slot name value) where
  others ref href := (world.batch_updateBatch batch _ ref).trans (if_neg fun h => href h.1)
  written := Store.proj_get_update _ _ _ Batch.written fun _ => rfl
  seen {other otherName} hother := by
    rw [seen?_handOver, if_neg]
    rintro ⟨-, -, rfl, rfl⟩
    exact hother.elim (· (List.mem_singleton.mpr rfl)) (· rfl)

theorem others_writeThrough (world : World) {batch ref : BatchRef} (href : ref ≠ batch)
    {name : String} {value : Value} :
    (world.writeThrough batch name value).batch ref = world.batch ref := by
  by_cases hspaces : (world.batch batch).spaces = []
  · unfold writeThrough
    rw [hspaces]
  · rw [world.batch_writeThrough hspaces, if_neg fun h => href h.1]

theorem mem_written_writeThrough (world : World) {batch : BatchRef} {name other : String}
    {value : Value} (h : other ∈ ((world.writeThrough batch name value).batch batch).written) :
    other ∈ (world.batch batch).written ∨ other = name := by
  by_cases hspaces : (world.batch batch).spaces = []
  · unfold writeThrough at h
    rw [hspaces] at h
    exact .inl h
  · rw [world.batch_writeThrough hspaces] at h
    split at h
    · exact (List.mem_insert_iff.mp h).symm
    · exact .inl h

/-- Values were delivered to a batch whose consumers only write. -/
structure DeliveredTo (writes : Consumer → String → Value → List Cell.Write) (batch : BatchRef)
    (values : List (String × Value)) (before after : World) : Prop where
  wrote : before.Wrote (values.flatMap (before.deliveries writes batch)) after
  others : ∀ ref, ref ≠ batch → after.batch ref = before.batch ref
  seen : ∀ slot {name}, name ∉ values.map (·.1) →
    after.seen? batch slot name = before.seen? batch slot name
  received : ∀ row ∈ values, ∀ slot ∈ ((before.batch batch).concerned row.1).map (·.1),
    after.seen? batch slot row.1 = some row.2
  written : ∀ name ∈ (after.batch batch).written, name ∈ (before.batch batch).written ∨
    name ∈ values.map (·.1) ∧ (before.batch batch).concerned name ≠ []

/-- What is written by a delivery does not depend on what was delivered under other names. -/
theorem deliveries_congr {writes : Consumer → String → Value → List Cell.Write} {batch : BatchRef}
    {row : String × Value} (hkeeps : first.Keeps second)
    (hseen : ∀ slot, second.seen? batch slot row.1 = first.seen? batch slot row.1) :
    second.deliveries writes batch row = first.deliveries writes batch row := by
  unfold deliveries
  simp only [hkeeps.concerned, hkeeps.spaces, hkeeps.spaceCount, hasSeen_congr (hseen _)]

/-- What is written by a delivery depends on the batch and the number of namespaces. -/
theorem deliveries_eq_of_batch {writes : Consumer → String → Value → List Cell.Write}
    {batch batch' : BatchRef} (hbatch : second.batch batch' = first.batch batch)
    (hcount : second.spaces.size = first.spaces.size) (row : String × Value) :
    second.deliveries writes batch' row = first.deliveries writes batch row := by
  unfold deliveries hasSeen seen?
  rw [hbatch, hcount]

/-- Where all consumers have received a value last, a delivery writes it into the namespaces only, as it
did before. -/
theorem mem_deliveries_of_seen {writes : Consumer → String → Value → List Cell.Write}
    {batch : BatchRef} {row : String × Value} (hkeeps : first.Keeps second)
    (hseen : ∀ slot ∈ ((second.batch batch).concerned row.1).map (·.1),
      second.seen? batch slot row.1 = some row.2) {write : Cell.Write}
    (h : write ∈ second.deliveries writes batch row) :
    write ∈ first.deliveries writes batch row ∧
      ∃ space, write = (.member space row.1, row.2) := by
  unfold deliveries at *
  rw [hkeeps.concerned, hkeeps.spaces, hkeeps.spaceCount] at h
  rw [hkeeps.concerned] at hseen
  dsimp only at h ⊢
  split
  · next hnone =>
    rw [if_pos hnone] at h
    cases h
  · next hsome =>
    rw [if_neg hsome] at h
    rcases List.mem_append.mp h with h | h
    · obtain ⟨space, -, -, heq⟩ := mem_memberWrites.mp h
      exact ⟨List.mem_append_left _ h, space, heq⟩
    · obtain ⟨other, hother, h⟩ := List.mem_flatMap.mp h
      rw [hasSeen_iff.mpr (hseen other.1 (List.mem_map_of_mem hother))] at h
      cases h

theorem DeliveredTo.nil {writes : Consumer → String → Value → List Cell.Write} {batch : BatchRef}
    (world : World) : world.DeliveredTo writes batch [] world where
  wrote := (Asked.refl world).wrote
  others _ _ := rfl
  seen _ _ _ := rfl
  received _ h := absurd h List.not_mem_nil
  written _ := .inl

theorem DeliveredTo.cons {writes : Consumer → String → Value → List Cell.Write} {batch : BatchRef}
    {row : String × Value} {rest : List (String × Value)} (hnew : row.1 ∉ rest.map (·.1))
    (h : first.DeliveredTo writes batch [row] second) (h' : second.DeliveredTo writes batch rest third) :
    first.DeliveredTo writes batch (row :: rest) third where
  wrote := by
    have hrest : rest.flatMap (second.deliveries writes batch) =
        rest.flatMap (first.deliveries writes batch) := by
      refine List.flatMap_congr fun other hother => ?_
      refine deliveries_congr h.wrote.toKeeps fun slot => h.seen slot fun hmem => hnew ?_
      have hsame : other.1 = row.1 := by simpa using hmem
      exact hsame ▸ List.mem_map_of_mem hother
    have hboth := h.wrote.trans h'.wrote
    rwa [hrest, ← List.flatMap_append] at hboth
  others ref href := (h'.others ref href).trans (h.others ref href)
  seen slot {name} hname := by
    rw [List.map_cons, List.mem_cons, not_or] at hname
    exact (h'.seen slot hname.2).trans (h.seen slot (by simpa using hname.1))
  received other hother slot hslot := by
    rcases List.mem_cons.mp hother with rfl | hother
    · rw [h'.seen slot hnew]
      exact h.received other (List.mem_singleton.mpr rfl) slot hslot
    · refine h'.received other hother slot ?_
      rwa [h.wrote.concerned]
  written name hname := by
    rcases h'.written name hname with hname | ⟨hmem, hconcerned⟩
    · refine (h.written name hname).imp_right fun hwritten => ⟨?_, hwritten.2⟩
      exact List.mem_cons.mpr (.inl (by simpa using hwritten.1))
    · rw [h.wrote.concerned] at hconcerned
      exact .inr ⟨List.mem_cons_of_mem _ hmem, hconcerned⟩

end World

section

variable {run : Runner} {base world : World} {writes : Consumer → String → Value → List Cell.Write}
  {batch : BatchRef}

/-- A delivery to one consumer that only writes. -/
theorem meets_deliverTo_wrote {name : String} {value : Value} {slot : String} {consumer : Consumer}
    {log : List Cell.Write} (hactive : (world.batch batch).isActive = true)
    (hwrites : consumer.OnlyWrites run base name value log) (hknows : base.Knows world) :
    (deliverTo run batch name value slot consumer).Meets world (fun goesOn after =>
      goesOn = true ∧ world.Wrote (if world.hasSeen batch slot name value then [] else log) after ∧
        world.Heard batch name [slot] after ∧ after.seen? batch slot name = some value)
      fun _ => False := by
  simp only [deliverTo_eq, Effect.meets_bind, Effect.meets_get, hactive, Bool.not_true,
    Bool.false_eq_true, if_false]
  change Effect.Meets (if world.hasSeen batch slot name value then _ else _) world _ _
  by_cases hseen : world.hasSeen batch slot name value = true
  · simp only [hseen, if_true, Effect.meets_pure, true_and]
    refine ⟨(World.Asked.refl world).wrote, ?_, World.hasSeen_iff.mp hseen⟩
    exact ⟨fun _ _ => rfl, rfl, fun _ => rfl⟩
  · simp only [hseen, if_false, Bool.false_eq_true, Effect.meets_bind, Effect.meets_modify,
      Effect.meets_pure, true_and]
    have hkeeps := world.keeps_handOver batch slot name value
    have hnoted : world.Wrote [] (world.handOver batch slot name value) :=
      .of_keeps hkeeps fun cell => by cases cell <;> rfl
    have hheard := world.heard_handOver batch slot name value
    refine (hwrites.meets _ (hknows.keeps hkeeps)).weaken fun _ after hafter => ?_
    obtain ⟨hwrote, hbatch⟩ := hafter
    have hseen' (other otherName : String) : after.seen? batch other otherName =
        (world.handOver batch slot name value).seen? batch other otherName := by
      simp only [World.seen?, hbatch]
    refine ⟨hnoted.trans hwrote, ⟨fun ref href => ?_, ?_, fun hother => ?_⟩, ?_⟩
    · rw [hbatch, hheard.others ref href]
    · rw [hbatch, hheard.written]
    · rw [hseen', hheard.seen hother]
    · rw [hseen', World.seen?_handOver, if_pos ⟨rfl, world.lt_of_isActive hactive, rfl, rfl⟩]

/-- Deliveries to consumers that only write. -/
theorem meets_deliverToAll_wrote {name : String} {value : Value} {rows : List (String × Consumer)}
    (hactive : (world.batch batch).isActive = true) (hslots : (rows.map (·.1)).Nodup)
    (hwrites : ∀ row ∈ rows, row.2.OnlyWrites run base name value (writes row.2 name value))
    (hknows : base.Knows world) :
    (deliverToAll run batch name value rows).Meets world (fun _ after =>
      world.Wrote (rows.flatMap fun row =>
          if world.hasSeen batch row.1 name value then [] else writes row.2 name value) after ∧
        world.Heard batch name (rows.map (·.1)) after ∧
        ∀ slot ∈ rows.map (·.1), after.seen? batch slot name = some value)
      fun _ => False := by
  induction rows generalizing world with
  | nil =>
    refine (Effect.meets_pure _).mpr ⟨(World.Asked.refl world).wrote, .refl world batch name, ?_⟩
    exact fun _ h => absurd h List.not_mem_nil
  | cons row rest ih =>
    obtain ⟨slot, consumer⟩ := row
    rw [List.map_cons, List.nodup_cons] at hslots
    simp only [deliverToAll, Effect.meets_bind]
    refine (meets_deliverTo_wrote hactive (hwrites _ List.mem_cons_self) hknows).weaken ?_
    rintro _ middle ⟨rfl, hwrote, hheard, hreceived⟩
    simp only [if_true]
    refine (ih (hwrote.isActive batch ▸ hactive) hslots.2
      (fun row hrow => hwrites row (List.mem_cons_of_mem _ hrow))
      (hknows.keeps hwrote.toKeeps)).weaken ?_
    rintro _ after ⟨hwrote', hheard', hreceived'⟩
    -- The consumers that are called later have seen what they had seen before.
    have hrest : (rest.flatMap fun row =>
        if middle.hasSeen batch row.1 name value then [] else writes row.2 name value) =
          rest.flatMap fun row =>
            if world.hasSeen batch row.1 name value then [] else writes row.2 name value := by
      refine List.flatMap_congr fun row hrow => ?_
      rw [World.hasSeen_congr (hheard.seen (.inl fun hmem => hslots.1 ?_)) value]
      have hsame : row.1 = slot := List.mem_singleton.mp hmem
      exact hsame ▸ List.mem_map.mpr ⟨row, hrow, rfl⟩
    rw [hrest] at hwrote'
    refine ⟨hwrote.trans hwrote', hheard.append hheard', fun other hother => ?_⟩
    rcases List.mem_cons.mp hother with rfl | hother
    · rw [hheard'.seen (.inl hslots.1)]
      exact hreceived
    · exact hreceived' other hother

/-- A delivery to a batch whose consumers only write. -/
theorem meets_deliver_wrote {row : String × Value} (hactive : (world.batch batch).isActive = true)
    (hwrites : ∀ other ∈ (world.batch batch).concerned row.1,
      other.2.OnlyWrites run base row.1 row.2 (writes other.2 row.1 row.2))
    (hknows : base.Knows world) :
    (deliver run batch row.1 row.2).Meets world (fun _ after => world.DeliveredTo writes batch [row] after)
      fun _ => False := by
  obtain ⟨name, value⟩ := row
  simp only [deliver, Effect.meets_bind, Effect.meets_get]
  by_cases hconcerned : (world.batch batch).concerned name = []
  · simp only [hconcerned, List.isEmpty_nil, if_true, Effect.meets_pure]
    have hnone : [(name, value)].flatMap (world.deliveries writes batch) = [] := by
      simp [World.deliveries, hconcerned]
    refine ⟨hnone ▸ (World.Asked.refl world).wrote, fun _ _ => rfl, fun _ _ _ => rfl, ?_,
      fun _ => .inl⟩
    intro other hother slot hslot
    obtain rfl := List.mem_singleton.mp hother
    rw [hconcerned] at hslot
    cases hslot
  · have hsome : ((world.batch batch).concerned name).isEmpty = false := by simpa using hconcerned
    simp only [hsome, Bool.false_eq_true, if_false, Effect.meets_bind, Effect.meets_modify]
    have hwrote := world.wrote_writeThrough batch name value
    have hseen (slot other : String) := world.seen?_writeThrough batch name value batch slot other
    refine (meets_deliverToAll_wrote (hwrote.isActive batch ▸ hactive) (nodup_concerned _ name)
      hwrites (hknows.keeps hwrote.toKeeps)).weaken ?_
    rintro _ after ⟨hwrote', hheard, hreceived⟩
    simp only [World.hasSeen_congr (hseen _ _)] at hwrote'
    have hall : [(name, value)].flatMap (world.deliveries writes batch) =
        World.memberWrites world.spaces.size (world.batch batch).spaces name value ++
          ((world.batch batch).concerned name).flatMap fun row =>
            if world.hasSeen batch row.1 name value then [] else writes row.2 name value := by
      simp [World.deliveries, hsome]
    constructor
    · rw [hall]
      exact hwrote.trans hwrote'
    · intro ref href
      rw [hheard.others ref href, world.others_writeThrough href]
    · intro slot other hother
      rw [hheard.seen (.inr (by simpa using hother)), hseen]
    · intro other hother slot hslot
      obtain rfl := List.mem_singleton.mp hother
      exact hreceived slot hslot
    · intro other hother
      rw [hheard.written] at hother
      refine (world.mem_written_writeThrough hother).imp_right ?_
      rintro rfl
      exact ⟨List.mem_singleton.mpr rfl, hconcerned⟩

/-- Deliveries of values to a batch whose consumers only write. -/
theorem meets_deliverValues_wrote {values : List (String × Value)}
    (hactive : (world.batch batch).isActive = true) (hnames : (values.map (·.1)).Nodup)
    (hwrites : ∀ row ∈ values, ∀ other ∈ (world.batch batch).concerned row.1,
      other.2.OnlyWrites run base row.1 row.2 (writes other.2 row.1 row.2))
    (hknows : base.Knows world) :
    (deliverValues run batch values).Meets world
      (fun _ after => world.DeliveredTo writes batch values after) fun _ => False := by
  induction values generalizing world with
  | nil => exact (Effect.meets_pure _).mpr (.nil world)
  | cons row rest ih =>
    rw [List.map_cons, List.nodup_cons] at hnames
    simp only [deliverValues, Effect.meets_bind, Effect.meets_get, hactive, if_true]
    refine (meets_deliver_wrote hactive (hwrites row List.mem_cons_self) hknows).weaken ?_
    intro _ middle hmiddle
    have hkeeps := hmiddle.wrote.toKeeps
    refine (ih (hkeeps.isActive batch ▸ hactive) hnames.2 ?_ (hknows.keeps hkeeps)).weaken ?_
    · intro other hother
      rw [hkeeps.concerned]
      exact hwrites other (List.mem_cons_of_mem _ hother)
    · exact fun _ after hafter => .cons hnames.1 hmiddle hafter

/-- What deliveries to batches write, one batch after the other. -/
def World.batchWrites (world : World) (writes : Consumer → String → Value → List Cell.Write)
    (values : List (String × Value)) (batches : List BatchRef) : List Cell.Write :=
  batches.flatMap fun batch => values.flatMap (world.deliveries writes batch)

theorem World.batchWrites_congr {writes : Consumer → String → Value → List Cell.Write}
    {values : List (String × Value)} {batches : List BatchRef} {first second : World}
    (hkeeps : first.Keeps second) (hbatch : ∀ ref ∈ batches, second.batch ref = first.batch ref) :
    second.batchWrites writes values batches = first.batchWrites writes values batches := by
  refine List.flatMap_congr fun batch h => List.flatMap_congr fun row _ => ?_
  exact deliveries_congr hkeeps fun slot => by simp only [seen?, hbatch batch h]

/-- Values were delivered to batches whose consumers only write. -/
structure World.DeliveredAll (log : List Cell.Write) (values : List (String × Value))
    (batches : List BatchRef) (before after : World) : Prop where
  wrote : before.Wrote log after
  others : ∀ ref, ref ∉ batches → after.batch ref = before.batch ref
  received : ∀ batch ∈ batches, ∀ row ∈ values,
    ∀ slot ∈ ((before.batch batch).concerned row.1).map (·.1),
      after.seen? batch slot row.1 = some row.2
  written : ∀ batch ∈ batches, ∀ name ∈ (after.batch batch).written,
    name ∈ (before.batch batch).written ∨
      name ∈ values.map (·.1) ∧ (before.batch batch).concerned name ≠ []

theorem World.DeliveredAll.alike_left {log : List Cell.Write} {values : List (String × Value)}
    {batches : List BatchRef} {first second third : World} (h : first.Alike second)
    (h' : second.DeliveredAll log values batches third) :
    first.DeliveredAll log values batches third where
  wrote := h'.wrote.alike_left h
  others ref href := (h'.others ref href).trans (h.batch ref)
  received batch hbatch row hrow slot hslot :=
    h'.received batch hbatch row hrow slot ((h.batch batch).symm ▸ hslot)
  written batch hbatch name hname := h.batch batch ▸ h'.written batch hbatch name hname

theorem World.DeliveredAll.alike_right {log : List Cell.Write} {values : List (String × Value)}
    {batches : List BatchRef} {first second third : World}
    (h : first.DeliveredAll log values batches second) (h' : second.Alike third) :
    first.DeliveredAll log values batches third where
  wrote := h.wrote.alike_right h'
  others ref href := (h'.batch ref).trans (h.others ref href)
  received batch hbatch row hrow slot hslot :=
    (h'.seen? batch slot row.1).trans (h.received batch hbatch row hrow slot hslot)
  written batch hbatch name hname := h.written batch hbatch name (h'.batch batch ▸ hname)

/-- Deliveries of values to batches whose consumers only write. -/
theorem meets_deliverToBatches_wrote {values : List (String × Value)} {batches : List BatchRef}
    (hactive : ∀ batch ∈ batches, (world.batch batch).isActive = true) (hbatches : batches.Nodup)
    (hnames : (values.map (·.1)).Nodup)
    (hwrites : ∀ batch ∈ batches, ∀ row ∈ values, ∀ other ∈ (world.batch batch).concerned row.1,
      other.2.OnlyWrites run base row.1 row.2 (writes other.2 row.1 row.2))
    (hknows : base.Knows world) :
    (deliverToBatches run values batches).Meets world
      (fun _ after => world.DeliveredAll (world.batchWrites writes values batches) values batches after)
      fun _ => False := by
  induction batches generalizing world with
  | nil =>
    refine (Effect.meets_pure _).mpr ⟨(World.Asked.refl world).wrote, fun _ _ => rfl, ?_, ?_⟩
    · exact fun _ h => absurd h List.not_mem_nil
    · exact fun _ h => absurd h List.not_mem_nil
  | cons batch rest ih =>
    rw [List.nodup_cons] at hbatches
    simp only [deliverToBatches, Effect.meets_bind, Effect.meets_holding]
    have hheld := world.alike_held (((batch :: rest).map .batch) ++ world.held)
    have hvalues : (deliverValues run batch values).Meets
        { world with held := (batch :: rest).map .batch ++ world.held }
        (fun _ after => World.DeliveredTo writes batch values _ after) fun _ => False :=
      meets_deliverValues_wrote (hactive batch List.mem_cons_self) hnames
        (hwrites batch List.mem_cons_self) (hknows.keeps hheld.toKeeps)
    refine hvalues.weaken fun _ middle hmiddle => ?_
    -- What is held on to meanwhile matters to none of this.
    have hfirst : world.DeliveredTo writes batch values { middle with held := world.held } :=
      ⟨(hmiddle.wrote.alike_left hheld).alike_right (middle.alike_held _), hmiddle.others,
        hmiddle.seen, hmiddle.received, hmiddle.written⟩
    generalize ({ middle with held := world.held } : World) = given at hfirst ⊢
    have hkeeps := hfirst.wrote.toKeeps
    have hother {other : BatchRef} (h : other ∈ rest) : given.batch other = world.batch other :=
      hfirst.others other fun heq => hbatches.1 (heq ▸ h)
    refine (ih (fun other h => hother h ▸ hactive other (List.mem_cons_of_mem _ h)) hbatches.2
      (fun other h => hother h ▸ hwrites other (List.mem_cons_of_mem _ h))
      (hknows.keeps hkeeps)).weaken fun _ after hafter => ?_
    constructor
    · have hboth := hfirst.wrote.trans hafter.wrote
      rwa [World.batchWrites_congr hkeeps fun _ => hother] at hboth
    · intro ref href
      rw [List.mem_cons, not_or] at href
      rw [hafter.others ref href.2, hfirst.others ref href.1]
    · intro other h row hrow slot hslot
      rcases List.mem_cons.mp h with rfl | h
      · have hsame := hafter.others other hbatches.1
        have hreceived := hfirst.received row hrow slot hslot
        simp only [World.seen?, hsame] at hreceived ⊢
        exact hreceived
      · exact hafter.received other h row hrow slot (hother h ▸ hslot)
    · intro other h name hname
      rcases List.mem_cons.mp h with rfl | h
      · rw [hafter.others other hbatches.1] at hname
        exact hfirst.written name hname
      · exact hother h ▸ hafter.written other h name hname

/-! ### Rounds -/

/-- Asking the providers of an entry gives `values`, of which `shown` are written into the entry's
namespace, and does nothing else. -/
def World.Yields (run : Runner) (entry : EntryRef) (values shown : List (String × Value))
    (world : World) : Prop :=
  (refresh run entry).Meets world (fun given after =>
    given = values ∧ world.Refreshed (world.entry entry).space shown after) fun _ => False

/-- What a round writes that yields `values`. -/
def World.roundWrites (world : World) (writes : Consumer → String → Value → List Cell.Write)
    (entry : EntryRef) (values shown : List (String × Value)) : List Cell.Write :=
  (shown.flatMap fun row =>
    World.memberWrites world.spaces.size [(world.entry entry).space] row.1 row.2) ++
      world.batchWrites writes values (world.entry entry).batches

variable {entry : EntryRef} {values shown : List (String × Value)}

/-- A round over batches whose consumers only write. -/
theorem meets_propagate_wrote (hyields : world.Yields run entry values shown)
    (hshown : shown.Sublist values) (hnames : (values.map (·.1)).Nodup)
    (hactive : ∀ batch ∈ (world.entry entry).batches, (world.batch batch).isActive = true)
    (hbatches : (world.entry entry).batches.Nodup)
    (hwrites : ∀ batch ∈ (world.entry entry).batches, ∀ row ∈ values,
      ∀ other ∈ (world.batch batch).concerned row.1,
        other.2.OnlyWrites run base row.1 row.2 (writes other.2 row.1 row.2))
    (hknows : base.Knows world) :
    (propagate run entry).Meets world (fun _ after =>
      world.DeliveredAll (world.roundWrites writes entry values shown) values
        (world.entry entry).batches after) fun _ => False := by
  simp only [propagate, Effect.meets_bind, Effect.meets_get, Effect.meets_holding]
  refine hyields.weaken ?_
  rintro given asked ⟨hgiven, hasked⟩
  subst given
  rw [hasked.batches entry]
  have hrest (start : World) (hstart : asked.Alike start) :
      (deliverToBatches run values (world.entry entry).batches).Meets start
        (fun _ after => ∀ last, after.Alike last →
          world.DeliveredAll (world.roundWrites writes entry values shown) values
            (world.entry entry).batches last) fun _ => False := by
    have hkeeps := hasked.toKeeps.trans hstart.toKeeps
    have hbatch (ref : BatchRef) : start.batch ref = world.batch ref :=
      (hstart.batch ref).trans (hasked.batch ref)
    refine (meets_deliverToBatches_wrote (fun batch h => hbatch batch ▸ hactive batch h) hbatches
      hnames (fun batch h => hbatch batch ▸ hwrites batch h) (hknows.keeps hkeeps)).weaken ?_
    intro _ after hafter last hlast
    have hwrote := hafter.wrote
    rw [World.batchWrites_congr hkeeps fun ref _ => hbatch ref] at hwrote
    have hgiven := hafter.alike_right hlast
    refine ⟨?_, fun ref href => (hgiven.others ref href).trans (hbatch ref), ?_, ?_⟩
    · have hshownWrites := hasked.wrote ((hshown.map (·.1)).nodup hnames)
      exact hshownWrites.trans ((hwrote.alike_left hstart).alike_right hlast)
    · intro batch h row hrow slot hslot
      exact hgiven.received batch h row hrow slot ((hbatch batch).symm ▸ hslot)
    · exact fun batch h name hname => hbatch batch ▸ hgiven.written batch h name hname
  refine (hrest _ (asked.alike_held _)).weaken fun _ after hafter => ?_
  exact hafter _ (after.alike_held _)

end

/-- The values that a round takes have different names, if the slots of its entry do. -/
theorem World.Yields.nodup {run : Runner} {entry : EntryRef} {values shown : List (String × Value)}
    {world : World} (h : world.Yields run entry values shown)
    (hslots : (world.entry entry).slots.names.Nodup) : (values.map (·.1)).Nodup := by
  obtain ⟨given, after, houtcome, rfl, -⟩ := h.exists_outcome
  exact (nodup_refresh run hslots).of_outcome_ok houtcome

end ModuleLinkage.Ledger
