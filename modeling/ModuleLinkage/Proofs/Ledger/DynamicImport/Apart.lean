import ModuleLinkage.Proofs.Ledger.Course.Running

/-!
# Rounds apart

While a round runs, its callbacks may enter the ledger again, or write to a namespace that the round
writes to. What a round comes to where they do not is said by a runner that gives up as soon as they
do (`runApart`): a round goes by itself (`World.RoundsApart`) if it does not give up under this
runner. Until the runner gives up it does what every other runner does (`Effect.Agrees`), so such a
round comes to the same, however its callbacks are run (`outcome_propagate_of_apart`). And as its
callbacks leave the ledger alone, it heeds every sight (`heeds_runApart`).
-/

set_option autoImplicit false

namespace ModuleLinkage.Ledger

open Effect

/-- Runs lines as long as they leave the ledger alone and `passes` allows what each of them comes
to. The first one of which this is not so exhausts the run. -/
def runApart (passes : World → World → Bool) (scope : Scope) (label : String) : Program → Effect Unit
  | [] => return ()
  | line :: rest => do
    if line.command.entersLedger then throw .exhausted
    else
      let before ← get
      let outcome ← (perform (runner 0) scope line.command).attempt
      if passes before (← get) then
        Effect.report (.ran label line.name outcome)
        match outcome with
        | .ok _ => runApart passes scope label rest
        | .error error =>
          if line.goesOn then runApart passes scope label rest else Effect.fail error
      else throw .exhausted

/-- The callbacks of a round over an entry leave the ledger alone, and `passes` allows what each of
their lines comes to. -/
def World.RoundsApart (world : World) (passes : World → World → Bool) (entry : EntryRef) : Prop :=
  ((propagate (runApart passes) entry).outcome world).1 ≠ .error .exhausted

/-- Whatever a line comes to is allowed. -/
def passesAll (_ _ : World) : Bool :=
  true

/-- A line may not change what a namespace holds. -/
def sparesSpace (ref : NamespaceRef) (before after : World) : Bool :=
  decide ((after.space ref).members.rows = (before.space ref).members.rows)

instance (world : World) (passes : World → World → Bool) (entry : EntryRef) :
    Decidable (world.RoundsApart passes entry) :=
  match h : ((propagate (runApart passes) entry).outcome world).1 with
  | .error .exhausted => .isFalse fun hapart => hapart h
  | .error (.failed _) => .isTrue fun heq => by rw [h] at heq; cases heq
  | .error (.unbound _) => .isTrue fun heq => by rw [h] at heq; cases heq
  | .ok _ => .isTrue fun heq => by rw [h] at heq; cases heq

/-- A command that leaves the ledger alone runs no callbacks. -/
theorem perform_outside {command : Command} (houtside : command.entersLedger = false)
    (run other : Runner) (scope : Scope) : perform run scope command = perform other scope command := by
  cases command <;> first | (cases houtside; done) | rfl

/-! ### Effects that agree -/

namespace Effect

variable {α β : Type}

/-- Two effects come to the same, unless one of them is exhausted. -/
def Agrees (first second : Effect α) : Prop :=
  ∀ world, (first.outcome world).1 = .error .exhausted ∨
    (second.outcome world).1 = .error .exhausted ∨ first.outcome world = second.outcome world

theorem Agrees.refl (action : Effect α) : action.Agrees action :=
  fun _ => .inr (.inr rfl)

theorem agrees_throw_left (second : Effect α) : (throw .exhausted : Effect α).Agrees second :=
  fun _ => .inl rfl

theorem agrees_throw_right (first : Effect α) : first.Agrees (throw .exhausted : Effect α) :=
  fun _ => .inr (.inl rfl)

theorem Agrees.bind {first second : Effect α} {next next' : α → Effect β} (h : first.Agrees second)
    (hnext : ∀ value, (next value).Agrees (next' value)) : (first >>= next).Agrees (second >>= next') := by
  intro world
  rw [outcome_bind, outcome_bind]
  rcases h world with hfirst | hsecond | hsame
  · rcases houtcome : first.outcome world with ⟨fault | value, after⟩ <;> rw [houtcome] at hfirst <;>
      cases hfirst
    exact .inl rfl
  · rcases houtcome : second.outcome world with ⟨fault | value, after⟩ <;> rw [houtcome] at hsecond <;>
      cases hsecond
    exact .inr (.inl rfl)
  · rw [hsame]
    rcases second.outcome world with ⟨fault | value, after⟩
    · exact .inr (.inr rfl)
    · exact hnext value after

/-- The same effect, with what comes after it. -/
theorem agrees_bind (action : Effect α) {next next' : α → Effect β}
    (hnext : ∀ value, (next value).Agrees (next' value)) : (action >>= next).Agrees (action >>= next') :=
  (Agrees.refl action).bind hnext

theorem Agrees.holding {first second : Effect α} (h : first.Agrees second) (things : List Holding) :
    (holding things first).Agrees (holding things second) := by
  intro world
  rw [outcome_holding, outcome_holding]
  rcases h { world with held := things ++ world.held } with hfirst | hsecond | hsame
  · exact .inl hfirst
  · exact .inr (.inl hsecond)
  · rw [hsame]
    exact .inr (.inr rfl)

theorem Agrees.attempt {first second : Effect α} (h : first.Agrees second) :
    first.attempt.Agrees second.attempt := by
  intro world
  rw [outcome_attempt, outcome_attempt]
  rcases h world with hfirst | hsecond | hsame
  · rcases houtcome : first.outcome world with ⟨fault | value, after⟩ <;> rw [houtcome] at hfirst <;>
      cases hfirst
    exact .inl rfl
  · rcases houtcome : second.outcome world with ⟨fault | value, after⟩ <;> rw [houtcome] at hsecond <;>
      cases hsecond
    exact .inr (.inl rfl)
  · rw [hsame]
    exact .inr (.inr rfl)

/-- Of effects that agree, if one gives a value and the other is not exhausted, both come to the
same. -/
theorem Agrees.outcome_eq {first second : Effect α} (h : first.Agrees second) {world after : World}
    {value : α} (hfirst : first.outcome world = (.ok value, after))
    (hsecond : (second.outcome world).1 ≠ .error .exhausted) : second.outcome world = (.ok value, after) := by
  rcases h world with hexhausted | hexhausted | hsame
  · rw [hfirst] at hexhausted
    cases hexhausted
  · exact absurd hexhausted hsecond
  · rw [← hsame, hfirst]

end Effect

/-- Two runners run all programs alike, unless one of them is exhausted. -/
def Runner.Agrees (run other : Runner) : Prop :=
  ∀ (scope : Scope) (label : String) (lines : Program),
    (run scope label lines).Agrees (other scope label lines)

theorem agrees_runLines (run : Runner) (passes : World → World → Bool) (scope : Scope) (label : String)
    (program : Program) :
    (runLines run scope label program).Agrees (runApart passes scope label program) := by
  induction program with
  | nil => exact .refl _
  | cons line rest ih =>
    unfold runApart
    split
    · exact agrees_throw_right _
    · next houtside =>
      rw [runLines, perform_outside (by simpa using houtside) run (runner 0)]
      intro world
      rw [outcome_bind, outcome_bind, outcome_get]
      dsimp only
      rw [outcome_bind]
      rcases (perform (runner 0) scope line.command).attempt.outcome world with
        ⟨fault | outcome, after⟩
      · exact .inr (.inr rfl)
      · have hreports : Effect.Agrees (do
            Effect.report (.ran label line.name outcome)
            match outcome with
            | .ok _ => runLines run scope label rest
            | .error error =>
              if line.goesOn then runLines run scope label rest else Effect.fail error) (do
            Effect.report (.ran label line.name outcome)
            match outcome with
            | .ok _ => runApart passes scope label rest
            | .error error =>
              if line.goesOn then runApart passes scope label rest else Effect.fail error) := by
          refine agrees_bind _ fun _ => ?_
          split
          · exact ih
          · split
            · exact ih
            · exact .refl _
        dsimp only
        rw [outcome_bind get, outcome_get]
        dsimp only
        by_cases hpasses : passes world after = true
        · rw [if_pos hpasses]
          exact hreports after
        · rw [if_neg hpasses]
          exact .inr (.inl rfl)

/-- Every runner runs programs as the one apart does. -/
theorem agrees_runner (depth : Nat) (passes : World → World → Bool) :
    (runner depth).Agrees (runApart passes) := by
  intro scope label lines
  cases depth with
  | zero => exact agrees_throw_left _
  | succ depth => exact agrees_runLines _ passes scope label lines

/-! ### Rounds that agree -/

section

variable {run other : Runner} (hrun : run.Agrees other)

include hrun

theorem agrees_ask (ref : ProviderRef) : (ask run ref).Agrees (ask other ref) := by
  refine agrees_bind _ fun calls => agrees_bind _ fun world => ?_
  split
  · exact .refl _
  · exact .refl _
  · exact .refl _
  · exact .refl _
  · exact .refl _
  · exact (hrun _ _ _).bind fun _ => .refl _

theorem agrees_slot_value (slot : Slot) : (slot.value? run).Agrees (slot.value? other) := by
  unfold Slot.value?
  split
  · exact .refl _
  · exact agrees_ask hrun _

theorem agrees_refreshSlots (entry : EntryRef) (space : NamespaceRef) (slots : List (String × Slot)) :
    (refreshSlots run entry space slots).Agrees (refreshSlots other entry space slots) := by
  induction slots with
  | nil => exact .refl _
  | cons row rest ih =>
    refine ((agrees_slot_value hrun row.2).holding _).bind fun value => ?_
    split
    · exact ih
    · next value =>
      have hwrite : Effect.Agrees (do
            modify (·.setMember space row.1 value)
            let values ← Effect.holding value.holdings (refreshSlots run entry space rest)
            return (row.1, value) :: values) (do
            modify (·.setMember space row.1 value)
            let values ← Effect.holding value.holdings (refreshSlots other entry space rest)
            return (row.1, value) :: values) :=
        agrees_bind _ fun _ => (ih.holding _).bind fun _ => .refl _
      split
      · exact agrees_bind _ fun _ => hwrite
      · exact hwrite

theorem agrees_refresh (entry : EntryRef) : (refresh run entry).Agrees (refresh other entry) := by
  refine agrees_bind _ fun world => ?_
  dsimp only
  split
  · exact .refl _
  · exact (agrees_refreshSlots hrun _ _ _).holding _

theorem agrees_respond (consumer : Consumer) (name : String) (value : Value) :
    (consumer.respond run name value).Agrees (consumer.respond other name value) := by
  cases consumer with
  | assign binding => exact .refl _
  | copyInto space => exact .refl _
  | callback label lines scope =>
    have hreported : Effect.Agrees
        (run { scope with received := some (value, name) } "setter" lines).reported
        (other { scope with received := some (value, name) } "setter" lines).reported :=
      (hrun _ _ _).attempt.bind fun _ => .refl _
    cases label with
    | some label => exact agrees_bind _ fun _ => agrees_bind _ fun _ => hreported
    | none => exact hreported

theorem agrees_deliverTo (batch : BatchRef) (name : String) (value : Value) (slot : String)
    (consumer : Consumer) : (deliverTo run batch name value slot consumer).Agrees
      (deliverTo other batch name value slot consumer) := by
  rw [deliverTo_eq, deliverTo_eq]
  refine agrees_bind _ fun world => ?_
  split
  · exact .refl _
  · split
    · exact .refl _
    · exact agrees_bind _ fun _ => (agrees_respond hrun consumer name value).bind fun _ => .refl _

theorem agrees_deliverToAll (batch : BatchRef) (name : String) (value : Value)
    (concerned : List (String × Consumer)) : (deliverToAll run batch name value concerned).Agrees
      (deliverToAll other batch name value concerned) := by
  induction concerned with
  | nil => exact .refl _
  | cons row rest ih =>
    refine (agrees_deliverTo hrun batch name value row.1 row.2).bind fun goesOn => ?_
    split
    · exact ih
    · exact .refl _

theorem agrees_deliver (batch : BatchRef) (name : String) (value : Value) :
    (deliver run batch name value).Agrees (deliver other batch name value) := by
  refine agrees_bind _ fun world => ?_
  dsimp only
  split
  · exact .refl _
  · exact agrees_bind _ fun _ => agrees_deliverToAll hrun batch name value _

theorem agrees_deliverValues (batch : BatchRef) (values : List (String × Value)) :
    (deliverValues run batch values).Agrees (deliverValues other batch values) := by
  induction values with
  | nil => exact .refl _
  | cons row rest ih =>
    refine agrees_bind _ fun world => ?_
    split
    · exact (agrees_deliver hrun batch row.1 row.2).bind fun _ => ih
    · exact .refl _

theorem agrees_deliverToBatches (values : List (String × Value)) (batches : List BatchRef) :
    (deliverToBatches run values batches).Agrees (deliverToBatches other values batches) := by
  induction batches with
  | nil => exact .refl _
  | cons batch rest ih =>
    exact ((agrees_deliverValues hrun batch values).holding _).bind fun _ => ih

theorem agrees_propagate (entry : EntryRef) : (propagate run entry).Agrees (propagate other entry) := by
  refine (agrees_refresh hrun entry).bind fun values => agrees_bind _ fun world => ?_
  exact (agrees_deliverToBatches hrun values _).holding _

end

variable {world after : World} {entry : EntryRef} {passes : World → World → Bool}

/-- A round first takes values and then delivers them. -/
theorem exists_refresh {run : Runner} (hround : (propagate run entry).outcome world = (.ok (), after)) :
    ∃ values refreshed, (refresh run entry).outcome world = (.ok values, refreshed) :=
  (exists_of_outcome_bind hround).imp fun _ h => h.imp fun _ h => h.1

/-- What a round delivers are the values that it has taken. -/
theorem exists_deliveries {run : Runner} {values : List (String × Value)} {refreshed : World}
    (hrefresh : (refresh run entry).outcome world = (.ok values, refreshed))
    (hround : (propagate run entry).outcome world = (.ok (), after)) :
    ∃ held final, (deliverToBatches run values (refreshed.entry entry).batches).outcome
      { refreshed with held } = (.ok (), final) ∧ after = { final with held := refreshed.held } := by
  obtain ⟨_, _, hfound, hrest⟩ := exists_of_outcome_bind hround
  obtain ⟨heq, rfl⟩ := Prod.mk.inj (hrefresh.symm.trans hfound)
  obtain rfl := Except.ok.inj heq
  rw [Effect.outcome_bind, Effect.outcome_get] at hrest
  exact ⟨_, exists_of_outcome_holding hrest⟩

/-- A round that goes by itself comes to the same, however its callbacks are run. -/
theorem outcome_propagate_of_apart {depth : Nat}
    (hround : (propagate (runner depth) entry).outcome world = (.ok (), after))
    (hapart : world.RoundsApart passes entry) :
    (propagate (runApart passes) entry).outcome world = (.ok (), after) :=
  (agrees_propagate (agrees_runner depth passes) entry).outcome_eq hround hapart

/-- And it takes the same values. -/
theorem outcome_refresh_of_apart {depth : Nat} {values : List (String × Value)} {refreshed : World}
    (hround : (propagate (runApart passes) entry).outcome world = (.ok (), after))
    (hrefresh : (refresh (runner depth) entry).outcome world = (.ok values, refreshed)) :
    (refresh (runApart passes) entry).outcome world = (.ok values, refreshed) := by
  obtain ⟨found, reached, hfound⟩ := exists_refresh hround
  refine (agrees_refresh (agrees_runner depth passes) entry).outcome_eq hrefresh ?_
  rw [hfound]
  exact nofun

/-- Callbacks that leave the ledger alone heed every sight. -/
theorem heeds_runApart {allowed : Command → Prop} {sight : Sight} {rel : World → World → Prop}
    (hrel : Follows allowed sight rel) (hallowed : ∃ term, allowed (.markLoaded term))
    (passes : World → World → Bool) : Runner.Heeds allowed sight rel (runApart passes) where
  lines {count scope} label lines hlines hscope := by
    induction lines generalizing count with
    | nil => exact hrel.done
    | cons line rest ih =>
      obtain ⟨hline, hrest⟩ := Program.confined_cons.mp hlines
      unfold runApart
      split
      · exact hrel.throws _
      · next houtside =>
        have hperformed {n : Nat} (hn : sight.Lasts count n) :=
          stays_perform_outside hrel (runner 0) (hscope.mono hn) hline (by simpa using houtside)
        refine hrel.bind hrel.reads fun n before hn _ => ?_
        refine hrel.bind (hperformed hn).attempt fun later outcome hlater _ => ?_
        refine hrel.bind hrel.reads fun last now hlast _ => ?_
        split
        · refine hrel.bind (hrel.reports _) fun final _ hfinal _ => ?_
          have hgoesOn := ih hrest (hscope.mono (((hn.trans hlater).trans hlast).trans hfinal))
          split
          · exact hgoesOn
          · split
            · exact hgoesOn
            · exact hrel.fails _
        · exact hrel.throws _
  completed _ _ hworld hinSight := hrel.trans hworld (hrel.act (hinSight.act_markLoaded _ hallowed))

end ModuleLinkage.Ledger
