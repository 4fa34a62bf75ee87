import ModuleLinkage.Proofs.Ledger.Course.Completion
import ModuleLinkage.Proofs.Ledger.Rounds.Abort

/-!
# Modules that run their bodies

A module counts as loaded from the moment at which its body has come to a good end. The round that
shows its values to importers comes after that moment, and it may fail too. How a call ends that
runs a body is said for every case (`evaluated_of_unloaded`). What is promised of such a call
(`World.Honours`), that the module is loaded if the call succeeds and is not if it fails, is kept
exactly if no round fails after a body that has succeeded. Otherwise the module is loaded although
the call fails (`failingRound_loaded`).
-/

set_option autoImplicit false

namespace ModuleLinkage.Ledger

variable {run : Runner} {module : ModuleRef} {body : Effect Unit} {exports : NamespaceRef}
  {entry : EntryRef} {world ran rounded after : World} {fault : Fault}

/-! ### Flags -/

/-- A module that is loaded is the same otherwise. -/
theorem World.module_setLoaded_self (h : module.index < world.modules.size) :
    (world.setLoaded module true).module module = { world.module module with isLoaded := true } :=
  Store.get_update_self _ _ h

/-- To claim exports is to load nothing. -/
theorem World.isLoaded_claimExports (world : World) (module : ModuleRef) :
    (world.claimExports module).2.modules = world.modules ∧
      ∀ ref, ((world.claimExports module).2.entry ref).isLoaded = (world.entry ref).isLoaded := by
  refine ⟨(world.markModule _).modules_ownedEntryFor _ module, fun ref => ?_⟩
  rw [World.claimExports, World.ownedEntryFor, World.isLoaded_settleOwner]
  exact ((world.markModule _).sameMarks_entryFor _ ref).2

/-- Whether a module is loaded is the same, and it is still there. -/
structure World.LeavesFlag (module : ModuleRef) (before after : World) : Prop where
  isLoaded : (after.module module).isLoaded = (before.module module).isLoaded
  modules : before.modules.size ≤ after.modules.size

/-! ### What comes after a body -/

/-- The round that begins when the body of a module has ended well. The module is loaded already. -/
def World.roundOf (run : Runner) (module : ModuleRef) (ran : World) : Except Fault Unit × World :=
  (propagateFrom run ((ran.setLoaded module true).module module).exports).outcome
    (ran.setLoaded module true)

/-- What is left to do when that round has ended well: the entry is loaded too, if the module owns
it. -/
def World.completed (world : World) (exports : NamespaceRef) (module : ModuleRef) : World :=
  let (entry, owned) := world.ownedEntryFor exports module
  if (owned.entry entry).owner == some module then owned.markLoaded entry else owned

theorem World.modules_completed (world : World) (exports : NamespaceRef) (module : ModuleRef) :
    (world.completed exports module).modules = world.modules := by
  have hmodules := world.modules_ownedEntryFor exports module
  unfold World.completed
  dsimp only
  split <;> exact hmodules

/-- The entry that a namespace has once its owner is settled is the one that has been settled. -/
theorem World.entryOf_ownedEntryFor
    (h : ((world.ownedEntryFor exports module).2.space exports).entry = some entry) :
    (world.ownedEntryFor exports module).1 = entry := by
  have hspaces (ref : EntryRef) (before : World) : (before.settleOwner ref module).spaces =
      before.spaces := by
    unfold World.settleOwner
    split <;> rfl
  have hspace : ((world.entryFor exports).2.space exports).entry = some entry := by
    rw [← h]
    exact congrArg (fun spaces => (Store.get spaces exports.index).entry) (hspaces _ _).symm
  change (world.entryFor exports).1 = entry
  unfold World.entryFor at hspace ⊢
  split at hspace
  · next ref hsome =>
    rw [hsome] at hspace
    exact Option.some.inj hspace
  · next hnone =>
    dsimp only at hspace ⊢
    rw [World.space_updateSpace] at hspace
    split at hspace
    · exact Option.some.inj hspace
    · exact absurd (hnone.symm.trans hspace) nofun

theorem World.isLoaded_completed
    (hentry : ((world.completed exports module).space exports).entry = some entry)
    (howner : ((world.completed exports module).entry entry).owner = some module) :
    ((world.completed exports module).entry entry).isLoaded = true := by
  unfold World.completed at hentry howner ⊢
  dsimp only at hentry howner ⊢
  split at hentry
  · next howned =>
    obtain rfl := World.entryOf_ownedEntryFor hentry
    rw [if_pos howned] at howner ⊢
    rw [World.entry_markLoaded, if_pos]
    refine ⟨rfl, Nat.lt_of_not_le fun hmissing => ?_⟩
    rw [World.owner_markLoaded, World.entry_of_size_le _ hmissing] at howner
    cases howner
  · next hother =>
    obtain rfl := World.entryOf_ownedEntryFor hentry
    rw [if_neg hother] at howner
    exact absurd (beq_iff_eq.mpr howner) hother

/-! ### How a call ends -/

theorem outcome_evaluate_bodyFails
    (hbody : body.outcome (world.claimExports module).2 = (.error fault, ran)) :
    (evaluate run module body).outcome world = (.error fault, ran) := by
  rw [evaluate, Effect.outcome_bind_of_ok _ (Effect.outcome_modifyGet _ world), Effect.outcome_bind,
    hbody]

theorem outcome_evaluate_roundFails
    (hbody : body.outcome (world.claimExports module).2 = (.ok (), ran))
    (hround : ran.roundOf run module = (.error fault, after)) :
    (evaluate run module body).outcome world = (.error fault, after) := by
  rw [World.roundOf] at hround
  rw [evaluate, Effect.outcome_bind_of_ok _ (Effect.outcome_modifyGet _ world),
    Effect.outcome_bind_of_ok _ hbody, Effect.outcome_bind_of_ok _ (Effect.outcome_modify _ _),
    propagateExports, Effect.outcome_bind_of_ok _ (Effect.outcome_get _), Effect.outcome_bind, hround]

theorem outcome_evaluate_succeeds
    (hbody : body.outcome (world.claimExports module).2 = (.ok (), ran))
    (hround : ran.roundOf run module = (.ok (), rounded))
    (hloaded : (rounded.module module).isLoaded = true) :
    (evaluate run module body).outcome world =
      (.ok (), rounded.completed ((ran.setLoaded module true).module module).exports module) := by
  rw [World.roundOf] at hround
  rw [evaluate, Effect.outcome_bind_of_ok _ (Effect.outcome_modifyGet _ world),
    Effect.outcome_bind_of_ok _ hbody, Effect.outcome_bind_of_ok _ (Effect.outcome_modify _ _),
    propagateExports, Effect.outcome_bind_of_ok _ (Effect.outcome_get _),
    Effect.outcome_bind_of_ok _ hround, Effect.outcome_bind_of_ok _ (Effect.outcome_get _),
    if_pos hloaded, Effect.outcome_bind_of_ok _ (Effect.outcome_modifyGet _ _),
    Effect.outcome_bind_of_ok _ (Effect.outcome_get _), World.completed]
  dsimp only
  split <;> rfl

/-! ### The result -/

/-- What is promised of a call that runs the body of a module: the module is loaded in the end if
the call succeeds, and so is the entry of its exports if the module owns it; the module is not
loaded if the call fails. -/
structure World.Honours (after : World) (module : ModuleRef) (result : Except Fault Unit) : Prop where
  failed : ∀ fault, result = .error fault → (after.module module).isLoaded = false
  succeeded : result = .ok () → (after.module module).isLoaded = true ∧
    ∀ entry, (after.space (after.module module).exports).entry = some entry →
      (after.entry entry).owner = some module → (after.entry entry).isLoaded = true

/-- A call that fails keeps its promise if the module is not loaded. -/
theorem World.honours_failed (hunloaded : (world.module module).isLoaded = false) :
    world.Honours module (.error fault) where
  failed _ _ := hunloaded
  succeeded := nofun

/-- A call that succeeds keeps its promise if the module is still loaded after the round and still
exports what it did. -/
theorem World.honours_completed {exports : NamespaceRef} (hloaded : (world.module module).isLoaded = true)
    (hexports : (world.module module).exports = exports) :
    (world.completed exports module).Honours module (.ok ()) where
  failed := nofun
  succeeded _ := by
    have hsame : (world.completed exports module).module module = world.module module :=
      congrArg (Store.get · module.index) (world.modules_completed exports module)
    rw [hsame, hexports]
    exact ⟨hloaded, fun entry => World.isLoaded_completed⟩

/-- How a call ends that runs the body of a module. -/
structure Evaluated (run : Runner) (module : ModuleRef) (body : Effect Unit) (world : World) : Prop where
  /-- Ahead of the body nothing is loaded. -/
  claims : (world.claimExports module).2.modules = world.modules ∧
    ∀ ref, ((world.claimExports module).2.entry ref).isLoaded = (world.entry ref).isLoaded
  /-- If the body fails, the call ends with it and with its error. -/
  bodyFails : ∀ {fault : Fault} {ran : World},
    body.outcome (world.claimExports module).2 = (.error fault, ran) →
    (evaluate run module body).outcome world = (.error fault, ran) ∧
      (ran.module module).isLoaded = false
  /-- If the round fails, the call ends with it and with its error: it marks no entry, but the module is
  loaded. -/
  roundFails : ∀ {ran : World} {fault : Fault} {after : World},
    body.outcome (world.claimExports module).2 = (.ok (), ran) →
    ran.roundOf run module = (.error fault, after) →
    (evaluate run module body).outcome world = (.error fault, after) ∧
      (after.module module).isLoaded = true
  /-- Otherwise the call succeeds. -/
  succeeds : ∀ {ran rounded : World},
    body.outcome (world.claimExports module).2 = (.ok (), ran) →
    ran.roundOf run module = (.ok (), rounded) →
    ∃ after, (evaluate run module body).outcome world = (.ok (), after) ∧
      after.Honours module (.ok ())
  /-- The promise is kept exactly if no round fails after a body that has succeeded. -/
  honours_iff : ((evaluate run module body).outcome world).2.Honours module
      ((evaluate run module body).outcome world).1 ↔
    ∀ ran, body.outcome (world.claimExports module).2 = (.ok (), ran) →
      (ran.roundOf run module).1 = .ok ()

/-- **When a call that runs a body keeps its promise.** For every module that is not loaded and
every body that does not change that, and as long as the callbacks of the round after it leave the
module alone: a body that fails leaves the module unloaded; a call that succeeds leaves it loaded,
and the entry of its exports too if the module owns that; and a round that fails leaves the module
loaded. So the promise is kept exactly if no round fails after a body that has succeeded. -/
theorem evaluated_of_unloaded (hmodule : module.index < world.modules.size)
    (hunloaded : (world.module module).isLoaded = false)
    (hbody : (world.claimExports module).2.LeavesFlag module
      (body.outcome (world.claimExports module).2).2)
    (hround : ∀ ran, body.outcome (world.claimExports module).2 = (.ok (), ran) →
      (ran.setLoaded module true).LeavesFlag module (ran.roundOf run module).2 ∧
        ((ran.roundOf run module).2.module module).exports =
          ((ran.setLoaded module true).module module).exports) :
    Evaluated run module body world := by
  obtain ⟨hmodules, hentries⟩ := world.isLoaded_claimExports module
  have hstill : ((body.outcome (world.claimExports module).2).2.module module).isLoaded = false := by
    rw [hbody.isLoaded, World.module, hmodules]
    exact hunloaded
  have hthere {ran : World} (hran : body.outcome (world.claimExports module).2 = (.ok (), ran)) :
      module.index < ran.modules.size := by
    have hsize := hbody.modules
    rw [hmodules, hran] at hsize
    exact Nat.lt_of_lt_of_le hmodule hsize
  have hloaded {ran : World} (hran : body.outcome (world.claimExports module).2 = (.ok (), ran)) :
      ((ran.roundOf run module).2.module module).isLoaded = true := by
    rw [(hround ran hran).1.isLoaded, World.module_setLoaded_self (hthere hran)]
  have bodyFails {fault : Fault} {ran : World}
      (hran : body.outcome (world.claimExports module).2 = (.error fault, ran)) :
      (evaluate run module body).outcome world = (.error fault, ran) ∧
        (ran.module module).isLoaded = false := by
    rw [hran] at hstill
    exact ⟨outcome_evaluate_bodyFails hran, hstill⟩
  have roundFails {ran : World} {fault : Fault} {after : World}
      (hran : body.outcome (world.claimExports module).2 = (.ok (), ran))
      (hfails : ran.roundOf run module = (.error fault, after)) :
      (evaluate run module body).outcome world = (.error fault, after) ∧
        (after.module module).isLoaded = true := by
    have hflag := hloaded hran
    rw [hfails] at hflag
    exact ⟨outcome_evaluate_roundFails hran hfails, hflag⟩
  have succeeds {ran rounded : World}
      (hran : body.outcome (world.claimExports module).2 = (.ok (), ran))
      (hrounded : ran.roundOf run module = (.ok (), rounded)) :
      ∃ after, (evaluate run module body).outcome world = (.ok (), after) ∧
        after.Honours module (.ok ()) := by
    have hflag := hloaded hran
    have hshown := (hround ran hran).2
    rw [hrounded] at hflag hshown
    exact ⟨_, outcome_evaluate_succeeds hran hrounded hflag, World.honours_completed hflag hshown⟩
  refine ⟨⟨hmodules, hentries⟩, bodyFails, roundFails, succeeds, ?_⟩
  rcases hran : body.outcome (world.claimExports module).2 with ⟨fault | _, ran⟩
  · obtain ⟨houtcome, hflag⟩ := bodyFails hran
    rw [houtcome]
    refine iff_of_true (World.honours_failed hflag) fun _ hran => ?_
    cases hran
  · rcases hrounded : ran.roundOf run module with ⟨fault | _, rounded⟩
    · obtain ⟨houtcome, hflag⟩ := roundFails hran hrounded
      rw [houtcome]
      refine iff_of_false (fun h => ?_) fun h => ?_
      · exact absurd hflag (Bool.eq_false_iff.mp (h.failed fault rfl))
      · have hok := h ran rfl
        rw [hrounded] at hok
        cases hok
    · obtain ⟨after, houtcome, hhonours⟩ := succeeds hran hrounded
      rw [houtcome]
      refine iff_of_true hhonours fun other hother => ?_
      obtain rfl : ran = other := congrArg Prod.snd hother
      rw [hrounded]

/-- A module has exported a variable that a consumer follows. -/
def preparing : Program :=
  [(Command.createModule "m" "m" true).line, (Command.createBinding "b" none).line,
   (Command.provide (some "m") [(.fixed "x", .binding "b")] false).line,
   (Command.watch (some "m") (.exportsOf "m")
     { consumers := some [(.fixed "x", .callback (some "heard") [])], key := none, spaces := [] }).line]

/-- The world after that. -/
def prepared : World :=
  (World.ofHost default).afterwards 4 preparing

/-- The body of that module sets the variable and exports a constant. -/
def preparedBody : Effect Unit :=
  runner 4 { current := some "m" } "run"
    [(Command.setBinding "b" (.text "v")).line,
     (Command.provide none [(.fixed "y", .counted "y" none)] true).line]

theorem eq_ok_of_isOk {result : Except Fault Unit} (h : result.isOk = true) : result = .ok () := by
  cases result with
  | error fault => cases h
  | ok value => rfl

/-- The result for that module, where the promise is kept: the module is loaded in the end, and so
is its entry. -/
theorem evaluated_prepared :
    Evaluated (runner 4) ⟨0⟩ preparedBody prepared ∧
      ((evaluate (runner 4) ⟨0⟩ preparedBody).outcome prepared).1 = .ok () ∧
      ((evaluate (runner 4) ⟨0⟩ preparedBody).outcome prepared).2.Honours ⟨0⟩
        ((evaluate (runner 4) ⟨0⟩ preparedBody).outcome prepared).1 ∧
      (((evaluate (runner 4) ⟨0⟩ preparedBody).outcome prepared).2.entry ⟨0⟩).isLoaded = true := by
  have hevaluated : Evaluated (runner 4) ⟨0⟩ preparedBody prepared := by
    refine evaluated_of_unloaded (by decide +kernel) (by decide +kernel)
      ⟨by decide +kernel, by decide +kernel⟩ fun ran hran => ?_
    obtain rfl : (preparedBody.outcome (prepared.claimExports ⟨0⟩).2).2 = ran := congrArg Prod.snd hran
    exact ⟨⟨by decide +kernel, by decide +kernel⟩, by decide +kernel⟩
  refine ⟨hevaluated, eq_ok_of_isOk (by decide +kernel), ?_, by decide +kernel⟩
  refine hevaluated.honours_iff.mpr fun ran hran => ?_
  obtain rfl : (preparedBody.outcome (prepared.claimExports ⟨0⟩).2).2 = ran := congrArg Prod.snd hran
  exact eq_ok_of_isOk (by decide +kernel)

/-- A module exports a name whose provider fails. -/
def refusing : Program :=
  [(Command.createModule "m" "m" true).line,
   (Command.provide (some "m") [(.fixed "x", .failing "t")] false).line]

/-- The world after that. -/
def refused : World :=
  (World.ofHost default).afterwards 4 refusing

/-- A call that runs an empty body fails, because its round does, and yet leaves the module loaded
that was not loaded before. -/
theorem failingRound_loaded :
    (refused.module ⟨0⟩).isLoaded = false ∧
      (runner 4 {} "run" []).outcome (refused.claimExports ⟨0⟩).2 =
        (.ok (), (refused.claimExports ⟨0⟩).2) ∧
      ((evaluate (runner 4) ⟨0⟩ (runner 4 {} "run" [])).outcome refused).1 =
        .error (.failed (.thrown "t")) ∧
      (((evaluate (runner 4) ⟨0⟩ (runner 4 {} "run" [])).outcome refused).2.module ⟨0⟩).isLoaded =
        true ∧
      ¬ ((evaluate (runner 4) ⟨0⟩ (runner 4 {} "run" [])).outcome refused).2.Honours ⟨0⟩
        (.error (.failed (.thrown "t"))) := by
  have hloaded : (((evaluate (runner 4) ⟨0⟩ (runner 4 {} "run" [])).outcome refused).2.module
      ⟨0⟩).isLoaded = true := by decide +kernel
  refine ⟨by decide +kernel, rfl, rfl, hloaded, fun h => ?_⟩
  exact absurd hloaded (Bool.eq_false_iff.mp (h.failed _ rfl))

end ModuleLinkage.Ledger
