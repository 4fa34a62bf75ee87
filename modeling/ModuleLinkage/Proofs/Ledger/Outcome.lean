import ModuleLinkage.Ledger.Execution

/-!
# Outcomes of effects

An effect run in a world comes to a value or a fault and leaves a world (`Effect.outcome`).
`Effect.Meets` is the judgement in which the theory of linking is written: run in a given world, an
effect either gives a value that satisfies the postcondition together with the world left, or
ends in a fault of an allowed kind. With no fault allowed it is total correctness, with all faults
allowed it is partial correctness. One rule belongs to each way of putting effects together; the
rules for sequencing, for holding on to things and for access to the world are equivalences, so
that a straight-line effect is run by rewriting.
-/

set_option autoImplicit false

namespace ModuleLinkage.Ledger

namespace Effect

variable {α β : Type}

/-- What an effect comes to in a world, and the world that it leaves. -/
def outcome (action : Effect α) (world : World) : Except Fault α × World :=
  action.run.run world

@[simp] theorem outcome_pure (value : α) (world : World) :
    (pure value : Effect α).outcome world = (.ok value, world) := rfl

/-- Sequencing runs the second effect on what the first one gives, in the world that it leaves. -/
theorem outcome_bind (action : Effect α) (next : α → Effect β) (world : World) :
    (action >>= next).outcome world =
      match action.outcome world with
      | (.ok value, after) => (next value).outcome after
      | (.error fault, after) => (.error fault, after) := by
  change ((action >>= next).run.run world) = _
  rw [ExceptT.run_bind, StateT.run_bind]
  unfold outcome
  rcases hrun : action.run.run world with ⟨fault | value, after⟩ <;>
    simp only [] <;> rfl

theorem outcome_bind_of_ok {action : Effect α} (next : α → Effect β) {world after : World} {value : α}
    (h : action.outcome world = (.ok value, after)) :
    (action >>= next).outcome world = (next value).outcome after := by
  rw [outcome_bind, h]

theorem fst_outcome_bind_of_error {action : Effect α} (next : α → Effect β) {world : World} {fault : Fault}
    (h : (action.outcome world).1 = .error fault) :
    ((action >>= next).outcome world).1 = .error fault := by
  rw [outcome_bind]
  rcases houtcome : action.outcome world with ⟨_ | value, after⟩ <;> rw [houtcome] at h
  · exact congrArg Except.error (Except.error.inj h)
  · cases h

@[simp] theorem outcome_get (world : World) :
    (get : Effect World).outcome world = (.ok world, world) := rfl

@[simp] theorem outcome_modify (change : World → World) (world : World) :
    (modify change : Effect Unit).outcome world = (.ok (), change world) := rfl

@[simp] theorem outcome_modifyGet (change : World → α × World) (world : World) :
    (modifyGet change : Effect α).outcome world = (.ok (change world).1, (change world).2) := rfl

@[simp] theorem outcome_throw (fault : Fault) (world : World) :
    (throw fault : Effect α).outcome world = (.error fault, world) := rfl

@[simp] theorem outcome_fail (error : LinkError) (world : World) :
    (fail error : Effect α).outcome world = (.error (.failed error), world) := rfl

@[simp] theorem outcome_report (event : Event) (world : World) :
    (report event).outcome world = (.ok (), world.addEvent event) := rfl

/-- Observing an effect never fails and leaves the same world. -/
@[simp] theorem outcome_observe (action : Effect α) (world : World) :
    action.observe.outcome world = (.ok (action.outcome world).1, (action.outcome world).2) := rfl

/-- Attempting an effect turns the errors that programs can meet into values. -/
theorem outcome_attempt (action : Effect α) (world : World) :
    action.attempt.outcome world =
      match action.outcome world with
      | (.ok value, after) => (.ok (.ok value), after)
      | (.error (.failed error), after) => (.ok (.error error), after)
      | (.error fault, after) => (.error fault, after) := by
  rw [attempt, outcome_bind, outcome_observe]
  rcases action.outcome world with ⟨fault | value, after⟩
  · cases fault <;> rfl
  · rfl

/-- Holding on to things changes what is held while the effect runs, and nothing afterwards. -/
theorem outcome_holding (things : List Holding) (action : Effect α) (world : World) :
    (holding things action).outcome world =
      ((action.outcome { world with held := things ++ world.held }).1,
        { (action.outcome { world with held := things ++ world.held }).2 with
          held := world.held }) := rfl

/-- What is held on to matters to an effect that gives a value only while it runs. -/
theorem exists_of_outcome_holding {things : List Holding} {action : Effect α} {world after : World}
    {value : α} (h : (holding things action).outcome world = (.ok value, after)) :
    ∃ final, action.outcome { world with held := things ++ world.held } = (.ok value, final) ∧
      after = { final with held := world.held } := by
  rw [outcome_holding] at h
  obtain ⟨hvalue, rfl⟩ := Prod.mk.inj h
  exact ⟨_, Prod.ext hvalue rfl, rfl⟩

/-- An effect that gives a value runs the one after it. -/
theorem exists_of_outcome_bind {action : Effect α} {next : α → Effect β} {world after : World} {value : β}
    (h : (action >>= next).outcome world = (.ok value, after)) :
    ∃ given middle, action.outcome world = (.ok given, middle) ∧
      (next given).outcome middle = (.ok value, after) := by
  rw [outcome_bind] at h
  rcases houtcome : action.outcome world with ⟨fault | given, middle⟩ <;> rw [houtcome] at h
  · cases h
  · exact ⟨given, middle, rfl, h⟩

/-! ### The judgement -/

/-- Run in `world`, the effect gives a value that satisfies `post` with the world left, or ends in an
allowed fault. -/
def Meets (action : Effect α) (world : World) (post : α → World → Prop)
    (allowed : Fault → Prop) : Prop :=
  match action.outcome world with
  | (.ok value, after) => post value after
  | (.error fault, _) => allowed fault

variable {post : α → World → Prop} {allowed : Fault → Prop} {world : World}

/-- An effect that meets a postcondition satisfies it whenever it gives a value. -/
theorem Meets.of_outcome_ok {action : Effect α} (h : action.Meets world post allowed) {value : α}
    {after : World} (houtcome : action.outcome world = (.ok value, after)) : post value after := by
  rw [Meets, houtcome] at h
  exact h

/-- An effect that meets a postcondition with no fault allowed gives a value. -/
theorem Meets.exists_outcome {action : Effect α} (h : action.Meets world post fun _ => False) :
    ∃ value after, action.outcome world = (.ok value, after) ∧ post value after := by
  unfold Meets at h
  rcases houtcome : action.outcome world with ⟨fault | value, after⟩
  · rw [houtcome] at h
    exact h.elim
  · rw [houtcome] at h
    exact ⟨value, after, rfl, h⟩

theorem Meets.mono {action : Effect α} {weaker : α → World → Prop} {allowed' : Fault → Prop}
    (h : action.Meets world post allowed)
    (hpost : ∀ value after, post value after → weaker value after)
    (hallowed : ∀ fault, allowed fault → allowed' fault) :
    action.Meets world weaker allowed' := by
  unfold Meets at h ⊢
  rcases houtcome : action.outcome world with ⟨fault | value, after⟩ <;> rw [houtcome] at h
  · exact hallowed fault h
  · exact hpost value after h

/-- A weaker postcondition, with the same faults allowed. -/
theorem Meets.weaken {action : Effect α} {weaker : α → World → Prop}
    (h : action.Meets world post allowed)
    (hpost : ∀ value after, post value after → weaker value after) :
    action.Meets world weaker allowed :=
  h.mono hpost fun _ => id

/-- Every effect gives some value or ends in some fault. -/
theorem meets_true (action : Effect α) (world : World) :
    action.Meets world (fun _ _ => True) fun _ => True := by
  unfold Meets
  split <;> trivial

@[simp] theorem meets_pure (value : α) :
    (pure value : Effect α).Meets world post allowed ↔ post value world := Iff.rfl

@[simp] theorem meets_bind {action : Effect α} {next : α → Effect β}
    {post : β → World → Prop} :
    (action >>= next).Meets world post allowed ↔
      action.Meets world (fun value after => (next value).Meets after post allowed) allowed := by
  unfold Meets
  rw [outcome_bind]
  rcases action.outcome world with ⟨fault | value, after⟩ <;> rfl

@[simp] theorem meets_map {action : Effect α} {change : α → β} {post : β → World → Prop} :
    (change <$> action).Meets world post allowed ↔
      action.Meets world (fun value after => post (change value) after) allowed := by
  rw [map_eq_pure_bind, meets_bind]
  rfl

@[simp] theorem meets_get {post : World → World → Prop} :
    (get : Effect World).Meets world post allowed ↔ post world world := Iff.rfl

@[simp] theorem meets_modify {change : World → World} {post : Unit → World → Prop} :
    (modify change : Effect Unit).Meets world post allowed ↔ post () (change world) := Iff.rfl

@[simp] theorem meets_modifyGet {change : World → α × World} :
    (modifyGet change : Effect α).Meets world post allowed ↔
      post (change world).1 (change world).2 := Iff.rfl

@[simp] theorem meets_throw {fault : Fault} :
    (throw fault : Effect α).Meets world post allowed ↔ allowed fault := Iff.rfl

@[simp] theorem meets_fail {error : LinkError} :
    (fail error : Effect α).Meets world post allowed ↔ allowed (.failed error) := Iff.rfl

@[simp] theorem meets_report {event : Event} {post : Unit → World → Prop} :
    (report event).Meets world post allowed ↔ post () (world.addEvent event) := Iff.rfl

@[simp] theorem meets_holding {things : List Holding} {action : Effect α} :
    (holding things action).Meets world post allowed ↔
      action.Meets { world with held := things ++ world.held }
        (fun value after => post value { after with held := world.held }) allowed := by
  unfold Meets
  rw [outcome_holding]
  rcases action.outcome { world with held := things ++ world.held } with ⟨fault | value, after⟩ <;>
    rfl

/-- An attempt of an effect that cannot fail by an error of programs gives its value. -/
theorem Meets.attempt {action : Effect α} {post : Except LinkError α → World → Prop}
    (hallowed : ∀ error, ¬ allowed (.failed error))
    (h : action.Meets world (fun value after => post (.ok value) after) allowed) :
    action.attempt.Meets world post allowed := by
  unfold Meets at h ⊢
  rw [outcome_attempt]
  rcases houtcome : action.outcome world with ⟨fault | value, after⟩ <;> rw [houtcome] at h
  · cases fault with
    | failed error => exact (hallowed error h).elim
    | unbound name => exact h
    | exhausted => exact h
  · exact h

/-- What a callback comes to: its lines may fail, which is reported and goes no further. -/
def reported (action : Effect Unit) : Effect Unit := do
  match ← action.attempt with
  | .ok () => pure ()
  | .error error => Effect.report (.consumerFailed error)

/-- A callback that cannot fail by an error of programs comes to what its lines come to. -/
theorem Meets.reported {action : Effect Unit} {post : Unit → World → Prop}
    (hallowed : ∀ error, ¬ allowed (.failed error)) (h : action.Meets world post allowed) :
    action.reported.Meets world post allowed := by
  unfold Effect.reported
  rw [meets_bind]
  refine .attempt hallowed (h.weaken fun _ after hafter => ?_)
  exact (meets_pure _).mpr hafter

@[simp] theorem meets_bound_some {name : String} {value : α} :
    (bound name (some value)).Meets world post allowed ↔ post value world := Iff.rfl

/-- Looking something up gives what is there or ends in the fault of an unbound name. -/
theorem meets_bound {name : String} {value : Option α} (hunbound : allowed (.unbound name))
    (h : ∀ found, value = some found → post found world) :
    (bound name value).Meets world post allowed := by
  cases value with
  | some found => exact h found rfl
  | none => exact hunbound

end Effect

/-- A line that ends its program when it fails. -/
def Command.line (command : Command) : Line :=
  .mk "" command false

@[simp] theorem Command.command_line (command : Command) : command.line.command = command := rfl

@[simp] theorem Command.goesOn_line (command : Command) : command.line.goesOn = false := rfl

open Effect

variable {run : Runner} {scope : Scope} {label : String} {world : World}
  {post : Unit → World → Prop} {allowed : Fault → Prop}

@[simp] theorem meets_runLines_nil :
    (runLines run scope label []).Meets world post allowed ↔ post () world := Iff.rfl

/-- A line that ends its program when it fails, and the lines after it. -/
theorem meets_runLines_cons {line : Line} {rest : Program} (hline : line.goesOn = false) :
    (runLines run scope label (line :: rest)).Meets world post allowed ↔
      (perform run scope line.command).Meets world
        (fun answer after =>
          (runLines run scope label rest).Meets
            (after.addEvent (.ran label line.name (.ok answer))) post allowed) allowed := by
  unfold Effect.Meets
  rw [runLines, outcome_bind, outcome_attempt]
  rcases houtcome : (perform run scope line.command).outcome world with ⟨fault | answer, after⟩
  · cases fault with
    | failed error => simp [outcome_bind, hline]
    | unbound name => rfl
    | exhausted => rfl
  · simp only [outcome_bind, outcome_report]

/-- A line that cannot fail by an error of programs, and the lines after it. -/
theorem meets_runLines_cons_of_allowed {line : Line} {rest : Program}
    (hallowed : ∀ error, ¬ allowed (.failed error))
    (h : (perform run scope line.command).Meets world
      (fun answer after => (runLines run scope label rest).Meets
        (after.addEvent (.ran label line.name (.ok answer))) post allowed) allowed) :
    (runLines run scope label (line :: rest)).Meets world post allowed := by
  rw [runLines, meets_bind]
  refine Meets.attempt hallowed (h.weaken fun answer after hafter => ?_)
  rw [meets_bind, meets_report]
  exact hafter

/-- Lines that end their program when they fail, in front of other lines. -/
theorem meets_runLines_append {first second : Program}
    (hlines : ∀ line ∈ first, line.goesOn = false) :
    (runLines run scope label (first ++ second)).Meets world post allowed ↔
      (runLines run scope label first).Meets world
        (fun _ after => (runLines run scope label second).Meets after post allowed) allowed := by
  induction first generalizing world with
  | nil => rfl
  | cons line rest ih =>
    have hline := hlines line (by simp)
    have hrest := fun world => @ih world fun line h => hlines line (by simp [h])
    rw [List.cons_append, meets_runLines_cons hline, meets_runLines_cons hline]
    simp only [hrest]

-- From here on the judgement is used through its rules.
attribute [irreducible] Effect.Meets

end ModuleLinkage.Ledger
