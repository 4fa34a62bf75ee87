import ModuleLinkage.Proofs.Ledger.DynamicImport.Mirror

/-!
# Rounds over an entry that is mirrored

What a namespace that mirrors an entry holds after a round over the entry by itself. While nothing
but the batch leads to the namespace (`World.Conceals`), the round puts its values there and nothing
else (`World.Conceals.propagate`). Where programs can get at the namespace, but no line of a
callback changes what it holds, it has every value of the round in the end
(`member?_propagate_of_spared`): other batches may write there too, but only the same values.
-/

set_option autoImplicit false

namespace ModuleLinkage.Ledger

open Effect

variable {batch : BatchRef} {view : NamespaceRef} {entry : EntryRef} {values : List (String × Value)}

/-! ### While the namespace is concealed -/

/-- Nothing but the batch leads to the namespace, which holds the values of a table. -/
structure World.Conceals (batch : BatchRef) (view : NamespaceRef) (hview : view.index ≠ 0)
    (table : Table Value) (world : World) : Prop where
  hidden : world.InSight (Sight.without view batch hview)
  mirrors : world.Mirrors batch view
  members : (world.space view).members = table

/-- The batch stays as it is, and so does what the namespace holds. -/
def World.LeavesView (batch : BatchRef) (view : NamespaceRef) (before after : World) : Prop :=
  (before.Mirrors batch view → after.Mirrors batch view) ∧
    (after.space view).members = (before.space view).members

variable (batch) in
theorem follows_leavesView (hview : view.index ≠ 0) :
    Follows (fun _ => True) (Sight.without view batch hview) (World.LeavesView batch view) where
  refl _ := ⟨id, rfl⟩
  trans h h' := ⟨h'.1 ∘ h.1, h'.2.trans h.2⟩
  act h := ⟨fun hmirrors => hmirrors.retains h.move.retains, h.spares view fun hsees => hsees rfl⟩
  lasts _ _ := id

namespace World.Conceals

variable {hview : view.index ≠ 0} {table : Table Value} {world after : World}

theorem fits (h : world.Conceals batch view hview table) :
    world.Fits (fun _ => True) (Sight.without view batch hview) :=
  ⟨world.confined_true, h.hidden⟩

theorem led (h : world.Conceals batch view hview table) (hled : world.LeavesView batch view after)
    (hfits : after.Fits (fun _ => True) (Sight.without view batch hview)) :
    after.Conceals batch view hview table :=
  ⟨hfits.inSight, hled.1 h.mirrors, hled.2.trans h.members⟩

theorem held (h : world.Conceals batch view hview table) (held : List Holding) :
    { world with held }.Conceals batch view hview table :=
  have hheld : Act (fun _ => True) (Sight.without view batch hview) world { world with held } :=
    Follows.act_held h.hidden held
  ⟨hheld.inSight, h.mirrors.retains hheld.move.retains, h.members⟩

theorem copied (h : world.Conceals batch view hview table) (hcopied : world.Copied view values after)
    (hvalues : ∀ row ∈ values,
      (Sight.without view batch hview).Shows world.spaces.size row.2.holdings) :
    after.Conceals batch view hview (table.putAll values) :=
  ⟨hcopied.inSight h.hidden hvalues, h.mirrors.retains (.of_keeps hcopied.toKeeps),
    h.members ▸ hcopied.members⟩

/-- A round by itself puts its values into a concealed namespace, and conceals it still. -/
theorem propagate {passes : World → World → Bool} {refreshed : World}
    (h : world.Conceals batch view hview table)
    (hrefresh : (refresh (runApart passes) entry).outcome world = (.ok values, refreshed))
    (hbatches : (refreshed.entry entry).batches.Nodup)
    (hlisted : batch ∈ (refreshed.entry entry).batches)
    (hround : (propagate (runApart passes) entry).outcome world = (.ok (), after)) :
    after.Conceals batch view hview (table.putAll values) := by
  have hrel := follows_leavesView batch hview
  have hrun := heeds_runApart hrel ⟨default, trivial⟩ passes
  obtain ⟨hled, hfits, hvalues⟩ := heeds_refresh hrel hrun entry world (.refl _ _) h.fits
  rw [hrefresh] at hled hfits hvalues
  obtain ⟨held, final, hdelivered, rfl⟩ := exists_deliveries hrefresh hround
  have hothers {other : BatchRef} {middle final : World} (hother : other ≠ batch)
      (houtcome : (deliverValues (runApart passes) other values).outcome middle = (.ok (), final))
      {table : Table Value} (hmiddle : middle.Conceals batch view hview table) :
      final.Conceals batch view hview table := by
    obtain ⟨hled, hfits, -⟩ := stays_deliverValues hrel hrun hother (hvalues values rfl) middle
      (.refl _ _) hmiddle.fits
    rw [houtcome] at hled hfits
    exact hmiddle.led hled hfits
  have hown {middle final : World}
      (houtcome : (deliverValues (runApart passes) batch values).outcome middle = (.ok (), final))
      (hmiddle : middle.Conceals batch view hview table) :
      final.Conceals batch view hview (table.putAll values) := by
    have hcopied := (meets_deliverValues_mirror hmiddle.mirrors values).of_outcome_ok houtcome
    exact hmiddle.copied hcopied (hvalues values rfl)
  have hcrossed := crosses_deliverToBatches (fun h => h.held _) (fun h => h.held _)
    (fun hother houtcome => ⟨hothers hother houtcome, hothers hother houtcome⟩) hown hbatches hdelivered
  exact (hcrossed.2 hlisted ((h.led hled hfits).held held)).held refreshed.held

end World.Conceals

/-! ### Where callbacks spare the namespace -/

/-- The namespace mirrors an entry and has every one of the values. -/
structure World.HasAll (batch : BatchRef) (view : NamespaceRef) (values : List (String × Value))
    (world : World) : Prop where
  mirrors : world.Mirrors batch view
  shown : ∀ row ∈ values, world.member? view row.1 = some row.2

/-- What the namespace has of the values it still has. -/
def World.Upholds (view : NamespaceRef) (values : List (String × Value)) (before after : World) : Prop :=
  ∀ row ∈ values, before.member? view row.1 = some row.2 → after.member? view row.1 = some row.2

theorem World.upholds_of_members {before after : World}
    (h : (after.space view).members = (before.space view).members) : before.Upholds view values after := by
  intro row _ hrow
  rw [World.member?, h]
  exact hrow

/-- Each of the values may be put into a namespace under its name. -/
theorem World.upholds_setMember (world : World) (ref : NamespaceRef) (hvalues : (values.map (·.1)).Nodup)
    {row : String × Value} (hrow : row ∈ values) :
    world.Upholds view values (world.setMember ref row.1 row.2) := by
  intro other hother hshown
  rw [World.member?_setMember]
  split
  · next hsame => rw [List.inj_on_of_nodup_map hvalues hother hrow hsame.2.2]
  · exact hshown

/-- No program catches this fault. -/
def Fault.IsFinal : Fault → Prop
  | .failed _ => False
  | .unbound _ | .exhausted => True

namespace Effect

variable {α β : Type}

/-- Unless an effect ends in a final fault, the namespace still has what it had of the values. -/
def Upholds (view : NamespaceRef) (values : List (String × Value)) (action : Effect α) : Prop :=
  ∀ world, (∃ fault, (action.outcome world).1 = .error fault ∧ fault.IsFinal) ∨
    world.Upholds view values (action.outcome world).2

theorem upholds_pure (value : α) : (pure value : Effect α).Upholds view values :=
  fun _ => .inr fun _ _ => id

theorem upholds_throw {fault : Fault} (h : fault.IsFinal) :
    (throw fault : Effect α).Upholds view values :=
  fun _ => .inl ⟨fault, rfl, h⟩

theorem upholds_fail (error : LinkError) : (fail error : Effect α).Upholds view values :=
  fun _ => .inr fun _ _ => id

theorem upholds_modify {change : World → World}
    (h : ∀ world, World.Upholds view values world (change world)) :
    (modify change : Effect Unit).Upholds view values :=
  fun world => .inr (h world)

theorem Upholds.bind {action : Effect α} {next : α → Effect β} (h : action.Upholds view values)
    (hnext : ∀ value, (next value).Upholds view values) : (action >>= next).Upholds view values := by
  intro world
  rw [outcome_bind]
  rcases h world with ⟨fault, hfault, hfinal⟩ | hfirst
  · rcases houtcome : action.outcome world with ⟨other | value, after⟩ <;> rw [houtcome] at hfault <;>
      cases hfault
    exact .inl ⟨fault, rfl, hfinal⟩
  · rcases houtcome : action.outcome world with ⟨fault | value, middle⟩ <;> rw [houtcome] at hfirst
    · exact .inr hfirst
    · refine (hnext value middle).imp_right fun hsecond row hrow hshown => ?_
      exact hsecond row hrow (hfirst row hrow hshown)

theorem upholds_get {next : World → Effect β} (hnext : ∀ world, (next world).Upholds view values) :
    (get >>= next).Upholds view values :=
  Upholds.bind (fun _ => .inr fun _ _ => id) hnext

theorem Upholds.attempt {action : Effect α} (h : action.Upholds view values) :
    action.attempt.Upholds view values := by
  intro world
  rw [outcome_attempt]
  rcases h world with ⟨fault, hfault, hfinal⟩ | hled
  · rcases houtcome : action.outcome world with ⟨other | value, after⟩ <;> rw [houtcome] at hfault <;>
      cases hfault
    cases fault with
    | failed error => exact hfinal.elim
    | _ => exact .inl ⟨_, rfl, trivial⟩
  · refine .inr ?_
    rcases houtcome : action.outcome world with ⟨fault | value, after⟩ <;> rw [houtcome] at hled
    · cases fault <;> exact hled
    · exact hled

theorem Upholds.holding {action : Effect α} (h : action.Upholds view values) (things : List Holding) :
    (holding things action).Upholds view values :=
  fun world => h { world with held := things ++ world.held }

theorem upholds_report (event : Event) : (report event).Upholds view values :=
  fun _ => .inr fun _ _ => id

end Effect

/-- An attempt fails only by a final fault. -/
theorem isFinal_of_attempt {α : Type} {action : Effect α} {world after : World} {fault : Fault}
    (h : action.attempt.outcome world = (.error fault, after)) : fault.IsFinal := by
  rw [outcome_attempt] at h
  rcases houtcome : action.outcome world with ⟨other | value, middle⟩ <;> rw [houtcome] at h
  · cases other <;> cases h <;> trivial
  · cases h

/-- Callbacks whose lines spare the namespace. -/
theorem upholds_runApart (scope : Scope) (label : String) (lines : Program) :
    (runApart (sparesSpace view) scope label lines).Upholds view values := by
  induction lines with
  | nil => exact upholds_pure _
  | cons line rest ih =>
    unfold runApart
    split
    · exact upholds_throw trivial
    · intro world
      rw [outcome_bind, outcome_get]
      dsimp only
      rw [outcome_bind]
      rcases houtcome : (perform (runner 0) scope line.command).attempt.outcome world with
        ⟨fault | outcome, after⟩
      · exact .inl ⟨fault, rfl, isFinal_of_attempt houtcome⟩
      · dsimp only
        rw [outcome_bind, outcome_get]
        dsimp only
        by_cases hspared : sparesSpace view world after = true
        · rw [if_pos hspared]
          have hmembers : (after.space view).members = (world.space view).members :=
            congrArg Table.mk (of_decide_eq_true hspared)
          refine ((upholds_report _).bind (fun _ => ?_) after).imp_right fun hrest row hrow hshown =>
            hrest row hrow (World.upholds_of_members hmembers row hrow hshown)
          split
          · exact ih
          · split
            · exact ih
            · exact upholds_fail _
        · rw [if_neg hspared]
          exact .inl ⟨.exhausted, rfl, trivial⟩

section

variable (hvalues : (values.map (·.1)).Nodup) {row : String × Value} (hrow : row ∈ values)

include hvalues hrow

theorem upholds_respond (consumer : Consumer) :
    (consumer.respond (runApart (sparesSpace view)) row.1 row.2).Upholds view values := by
  cases consumer with
  | assign binding => exact upholds_modify fun world => World.upholds_of_members rfl
  | copyInto space => exact upholds_modify fun world => world.upholds_setMember space hvalues hrow
  | callback label lines scope =>
    have hreported : Effect.Upholds view values (runApart (sparesSpace view)
        { scope with received := some (row.2, row.1) } "setter" lines).reported := by
      refine (upholds_runApart _ _ _).attempt.bind fun outcome => ?_
      split
      · exact upholds_pure _
      · exact upholds_report _
    cases label with
    | some label =>
      have hshown : (showValue row.2).Upholds view values := by
        cases row.2 with
        | space ref =>
          refine Upholds.bind (fun world => .inr (World.upholds_of_members ?_)) fun _ => upholds_pure _
          exact (world.alike_nameOfSpace ref).members view
        | _ => exact upholds_pure _
      exact hshown.bind fun _ => (upholds_report _).bind fun _ => hreported
    | none => exact hreported

theorem upholds_deliverTo (batch : BatchRef) (slot : String) (consumer : Consumer) :
    (deliverTo (runApart (sparesSpace view)) batch row.1 row.2 slot consumer).Upholds view values := by
  rw [deliverTo_eq]
  have hnoted : (modify (·.handOver batch slot row.1 row.2) : Effect Unit).Upholds view values :=
    upholds_modify fun _ => World.upholds_of_members rfl
  refine upholds_get fun world => ?_
  split
  · exact upholds_pure _
  · split
    · exact upholds_pure _
    · refine hnoted.bind fun _ => ?_
      exact (upholds_respond hvalues hrow consumer).bind fun _ => upholds_pure _

theorem upholds_deliverToAll (batch : BatchRef) (concerned : List (String × Consumer)) :
    (deliverToAll (runApart (sparesSpace view)) batch row.1 row.2 concerned).Upholds view values := by
  induction concerned with
  | nil => exact upholds_pure _
  | cons first rest ih =>
    refine (upholds_deliverTo hvalues hrow batch first.1 first.2).bind fun goesOn => ?_
    split
    · exact ih
    · exact upholds_pure _

theorem upholds_deliver (batch : BatchRef) :
    (deliver (runApart (sparesSpace view)) batch row.1 row.2).Upholds view values := by
  refine upholds_get fun world => ?_
  dsimp only
  split
  · exact upholds_pure _
  · refine (upholds_modify fun world => ?_).bind fun _ => upholds_deliverToAll hvalues hrow batch _
    intro other hother hshown
    rw [World.member?_writeThrough]
    split
    · next hsame => rw [List.inj_on_of_nodup_map hvalues hother hrow hsame.2.2]
    · exact hshown

end

theorem upholds_deliverValues (hvalues : (values.map (·.1)).Nodup) (batch : BatchRef) :
    (deliverValues (runApart (sparesSpace view)) batch values).Upholds view values := by
  have hsome {rows : List (String × Value)} (hrows : rows ⊆ values) :
      (deliverValues (runApart (sparesSpace view)) batch rows).Upholds view values := by
    induction rows with
    | nil => exact upholds_pure _
    | cons row rest ih =>
      obtain ⟨hrow, hrest⟩ := List.cons_subset.mp hrows
      refine upholds_get fun world => ?_
      split
      · exact (upholds_deliver hvalues hrow batch).bind fun _ => ih hrest
      · exact upholds_pure _
  exact hsome (List.Subset.refl values)

variable (batch view) in
/-- The batch stays as it is, whatever acts there are. -/
theorem follows_mirrors : Follows (fun _ => True) Sight.all fun before after =>
    before.Mirrors batch view → after.Mirrors batch view where
  refl _ := id
  trans h h' := h' ∘ h
  act h hmirrors := hmirrors.retains h.move.retains
  lasts _ := .refl _ _

/-- After a round in which callbacks spare a namespace that mirrors the entry, the namespace has every
value of the round. -/
theorem member?_propagate_of_spared {world refreshed after : World} (h : world.Mirrors batch view)
    (hslots : (world.entry entry).slots.names.Nodup)
    (hrefresh : (refresh (runApart (sparesSpace view)) entry).outcome world = (.ok values, refreshed))
    (hbatches : (refreshed.entry entry).batches.Nodup)
    (hlisted : batch ∈ (refreshed.entry entry).batches)
    (hround : (propagate (runApart (sparesSpace view)) entry).outcome world = (.ok (), after)) :
    ∀ row ∈ values, after.member? view row.1 = some row.2 := by
  have hrel := follows_mirrors batch view
  have hrun := heeds_runApart hrel ⟨default, trivial⟩ (sparesSpace view)
  have hall (now : World) : now.Fits (fun _ => True) Sight.all := ⟨now.confined_true, now.inSight_all⟩
  have hvalues : (values.map (·.1)).Nodup :=
    (nodup_refresh (runApart (sparesSpace view)) hslots).of_outcome_ok hrefresh
  obtain ⟨hled, -⟩ := heeds_refresh hrel hrun entry world (.refl _ _) (hall world)
  rw [hrefresh] at hled
  obtain ⟨held, final, hdelivered, rfl⟩ := exists_deliveries hrefresh hround
  have hstays {other : BatchRef} {middle final : World}
      (houtcome : (deliverValues (runApart (sparesSpace view)) other values).outcome middle =
        (.ok (), final)) (hmiddle : middle.Mirrors batch view) : final.Mirrors batch view := by
    obtain ⟨hled, -⟩ := stays_deliverValues hrel hrun id (fun _ _ => Sight.shows_all 0 _) middle
      (fun _ _ => trivial) (hall middle)
    rw [houtcome] at hled
    exact hled hmiddle
  have hothers {other : BatchRef} {middle final : World} (_ : other ≠ batch)
      (houtcome : (deliverValues (runApart (sparesSpace view)) other values).outcome middle =
        (.ok (), final)) : (middle.Mirrors batch view → final.Mirrors batch view) ∧
        (middle.HasAll batch view values → final.HasAll batch view values) := by
    refine ⟨hstays houtcome, fun hmiddle => ⟨hstays houtcome hmiddle.mirrors, fun row hrow => ?_⟩⟩
    rcases upholds_deliverValues hvalues other middle with ⟨fault, hfault, -⟩ | hupheld
    · rw [houtcome] at hfault
      cases hfault
    · rw [houtcome] at hupheld
      exact hupheld row hrow (hmiddle.shown row hrow)
  have hown {middle final : World}
      (houtcome : (deliverValues (runApart (sparesSpace view)) batch values).outcome middle =
        (.ok (), final)) (hmiddle : middle.Mirrors batch view) : final.HasAll batch view values := by
    have hcopied := (meets_deliverValues_mirror hmiddle values).of_outcome_ok houtcome
    refine ⟨hstays houtcome hmiddle, fun row hrow => ?_⟩
    rw [World.member?, hcopied.members]
    exact Table.get?_putAll_of_mem _ hvalues hrow
  have hcrossed := crosses_deliverToBatches (fun h => h.retains (.of_parts rfl rfl rfl))
    (fun h => ⟨h.mirrors.retains (.of_parts rfl rfl rfl), h.shown⟩) hothers hown hbatches hdelivered
  exact (hcrossed.2 hlisted ((hled h).retains (.of_parts rfl rfl rfl))).shown

end ModuleLinkage.Ledger
