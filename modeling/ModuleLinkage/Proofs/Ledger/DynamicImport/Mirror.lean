import ModuleLinkage.Proofs.Ledger.Course.Reach
import ModuleLinkage.Proofs.Ledger.DynamicImport.Apart

/-!
# Namespaces that mirror an entry

A dynamic import registers a batch for the namespace that it gives (`World.Mirrors`). The batch has
no key, so nothing replaces it; it has the namespace among its own, and one consumer, which copies
every value there. Of values that are delivered to it, each is in the namespace afterwards, whatever
the batch has seen before (`meets_deliverValues_mirror`).

The batches of an entry have their turns one after the other. What a round comes to for the namespace
follows from what the delivery to its batch does and what the deliveries to all other ones leave alone
(`crosses_deliverToBatches`).
-/

set_option autoImplicit false

namespace ModuleLinkage.Ledger

open Effect

/-- A batch is the one by which a dynamic import has its namespace follow an entry. -/
structure World.Mirrors (world : World) (batch : BatchRef) (view : NamespaceRef) : Prop where
  batchCount : batch.index < world.batches.size
  spaceCount : view.index < world.spaces.size
  registered : ∃ module, (world.batch batch).registered =
    (none, module, Table.ofList [(everyName, .copyInto view)], [view], true)

/-- Values were copied into a namespace, everything registered is as it was, and what leads to
namespaces in sight does so still. -/
structure World.Copied (view : NamespaceRef) (rows : List (String × Value)) (before after : World) : Prop
    extends before.Keeps after where
  members : (after.space view).members = (before.space view).members.putAll rows
  inSight : ∀ {sight : Sight}, before.InSight sight →
    (∀ row ∈ rows, sight.Shows before.spaces.size row.2.holdings) → after.InSight sight

variable {run : Runner} {world : World} {batch : BatchRef} {view : NamespaceRef}

namespace World.Mirrors

variable (h : world.Mirrors batch view)

include h

theorem isActive : (world.batch batch).isActive = true := by
  obtain ⟨_, hregistered⟩ := h.registered
  exact congrArg (·.2.2.2.2) hregistered

theorem spaces : (world.batch batch).spaces = [view] := by
  obtain ⟨_, hregistered⟩ := h.registered
  exact congrArg (·.2.2.2.1) hregistered

theorem key : (world.batch batch).key = none := by
  obtain ⟨_, hregistered⟩ := h.registered
  exact congrArg (·.1) hregistered

/-- Every name concerns the consumer that copies. -/
theorem concerned (name : String) :
    (world.batch batch).concerned name = [(everyName, .copyInto view)] := by
  obtain ⟨_, hregistered⟩ := h.registered
  have hconsumers : (world.batch batch).consumers = Table.ofList [(everyName, .copyInto view)] :=
    congrArg (·.2.2.1) hregistered
  unfold Batch.concerned
  rw [hconsumers]
  by_cases hname : name = everyName
  · simp [hname, Table.ofList, Table.putAll, Table.put, Table.putRows, Table.empty, Table.get?]
  · have hother : ¬ everyName = name := fun heq => hname heq.symm
    simp [hname, hother, Table.ofList, Table.putAll, Table.put, Table.putRows, Table.empty, Table.get?]

/-- The batch is not replaced. -/
theorem retains {after : World} (hretains : world.Retains after) : after.Mirrors batch view where
  batchCount := Nat.lt_of_lt_of_le h.batchCount hretains.batchCount
  spaceCount := Nat.lt_of_lt_of_le h.spaceCount hretains.spaceCount
  registered := by
    obtain ⟨module, hregistered⟩ := h.registered
    exact ⟨module, (hretains.registered batch h.batchCount h.key).trans hregistered⟩

end World.Mirrors

namespace World.Copied

variable {rows rows' : List (String × Value)} {first second third : World}

theorem refl (world : World) (view : NamespaceRef) : world.Copied view [] world where
  toKeeps := .refl world
  members := rfl
  inSight h _ := h

theorem trans (h : first.Copied view rows second) (h' : second.Copied view rows' third) :
    first.Copied view (rows ++ rows') third where
  toKeeps := h.toKeeps.trans h'.toKeeps
  members := by
    rw [h'.members, h.members]
    exact (List.foldl_append ..).symm
  inSight hinSight hrows := by
    rw [List.forall_mem_append] at hrows
    exact h'.inSight (h.inSight hinSight hrows.1) (h.spaceCount.symm ▸ hrows.2)

end World.Copied

/-! ### Deliveries to the batch -/

theorem World.members_setMember (hlt : view.index < world.spaces.size) (name : String) (value : Value) :
    ((world.setMember view name value).space view).members =
      (world.space view).members.put name value := by
  rw [World.setMember, world.space_updateSpace, if_pos ⟨rfl, hlt⟩]

theorem World.Mirrors.copied_writeThrough (h : world.Mirrors batch view) (name : String) (value : Value) :
    world.Copied view [(name, value)] (world.writeThrough batch name value) where
  toKeeps := world.keeps_writeThrough batch name value
  members := by
    rcases world.writeThrough_cases batch name value with ⟨hnone, -⟩ | heq
    · rw [h.spaces] at hnone
      cases hnone
    · rw [heq, h.spaces]
      exact world.members_setMember h.spaceCount name value
  inSight hinSight hrows := hinSight.writeThrough batch name (hrows _ (List.mem_singleton.mpr rfl))

/-- The consumer that copies puts a value where it is already, if it takes the value at all. -/
theorem meets_deliver_mirror (h : world.Mirrors batch view) (name : String) (value : Value) :
    (deliver run batch name value).Meets world
      (fun _ after => world.Copied view [(name, value)] after) fun _ => False := by
  have hwritten := h.copied_writeThrough name value
  simp only [deliver, meets_bind, meets_get, h.concerned, List.isEmpty_cons, Bool.false_eq_true, if_false,
    meets_modify, deliverToAll]
  generalize world.writeThrough batch name value = written at hwritten ⊢
  refine meets_deliverTo ((hwritten.isActive batch).trans h.isActive) (fun _ => ?_) ?_
  · simpa using hwritten
  · have hlt : view.index < (written.handOver batch everyName name value).spaces.size :=
      Nat.lt_of_lt_of_eq h.spaceCount hwritten.spaceCount.symm
    refine meets_modify.mpr ?_
    simp only [if_true, meets_pure]
    refine
      { toKeeps := (hwritten.toKeeps.trans (written.keeps_handOver batch everyName name value)).trans
          (World.keeps_setMember _ view name value)
        members := ?_, inSight := fun {sight} hinSight hrows => ?_ }
    · have hput := hwritten.members
      rw [World.members_setMember hlt]
      change (written.space view).members.put name value = _
      rw [hput]
      exact Table.put_put _ _ _ _
    · have hvalue : sight.Shows written.spaces.size value.holdings :=
        hwritten.spaceCount.symm ▸ hrows _ (List.mem_singleton.mpr rfl)
      exact ((hwritten.inSight hinSight hrows).handOver batch everyName name hvalue).setMember view name
        hvalue

/-- Of values that are delivered to the batch, each is in the namespace afterwards. -/
theorem meets_deliverValues_mirror (h : world.Mirrors batch view) (values : List (String × Value)) :
    (deliverValues run batch values).Meets world
      (fun _ after => world.Copied view values after) fun _ => False := by
  induction values generalizing world with
  | nil => exact (meets_pure _).mpr (.refl world view)
  | cons row rest ih =>
    simp only [deliverValues, meets_bind, meets_get, h.isActive, if_true]
    refine (meets_deliver_mirror h row.1 row.2).weaken fun _ middle hmiddle => ?_
    refine (ih (h.retains (.of_keeps hmiddle.toKeeps))).weaken fun _ after hafter => ?_
    exact hmiddle.trans hafter

/-! ### The turns of batches -/

/-- Deliveries to batches go from `before` to `after` when one batch has its turn, if this goes
there and the turns of all other ones leave both alone. -/
theorem crosses_deliverToBatches {values : List (String × Value)} {before after : World → Prop}
    (hheld : ∀ {world held}, before world → before { world with held })
    (hheld' : ∀ {world held}, after world → after { world with held })
    (hothers : ∀ {other world final}, other ≠ batch →
      (deliverValues run other values).outcome world = (.ok (), final) →
        (before world → before final) ∧ (after world → after final))
    (hown : ∀ {world final}, (deliverValues run batch values).outcome world = (.ok (), final) →
      before world → after final)
    {batches : List BatchRef} (hbatches : batches.Nodup) {world final : World}
    (houtcome : (deliverToBatches run values batches).outcome world = (.ok (), final)) :
    (batch ∉ batches → after world → after final) ∧ (batch ∈ batches → before world → after final) := by
  induction batches generalizing world with
  | nil =>
    cases houtcome
    exact ⟨fun _ => id, fun h => absurd h List.not_mem_nil⟩
  | cons other rest ih =>
    obtain ⟨hother, hrest⟩ := List.nodup_cons.mp hbatches
    rw [deliverToBatches, outcome_bind, outcome_holding] at houtcome
    rcases hturn : (deliverValues run other values).outcome
      { world with held := (other :: rest).map .batch ++ world.held } with ⟨fault | value, turned⟩ <;>
      rw [hturn] at houtcome
    · cases houtcome
    · obtain ⟨hleft, hentered⟩ := ih hrest houtcome
      constructor
      · intro hmem hafter
        rw [List.mem_cons, not_or] at hmem
        exact hleft hmem.2 (hheld' ((hothers (Ne.symm hmem.1) hturn).2 (hheld' hafter)))
      · intro hmem hbefore
        by_cases heq : other = batch
        · obtain rfl := heq
          exact hleft hother (hheld' (hown hturn (hheld hbefore)))
        · have hmem := (List.mem_cons.mp hmem).resolve_left (Ne.symm heq)
          exact hentered hmem (hheld ((hothers heq hturn).1 (hheld hbefore)))

end ModuleLinkage.Ledger
