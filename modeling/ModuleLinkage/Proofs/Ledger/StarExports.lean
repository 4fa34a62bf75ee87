import ModuleLinkage.Proofs.Ledger.Reentry.Overtaking
import ModuleLinkage.Proofs.Ledger.Registrations
import ModuleLinkage.Proofs.Ledger.Replacement.History

/-!
# Rounds in which `export *` registers getters

Rounds call callbacks, which may begin rounds and register getters in turn. `Leads` says of an effect
that from every world it comes to the end of a run in which nothing but `export *` registers getters
of a module, and in which `export *` registers, call by call, just what its callbacks are called with;
this holds of a round if it holds of the callbacks that the round calls (`leads_propagate`). So it
holds, however deep callbacks are nested, of the callbacks of `export *` themselves
(`leads_starRunner`), and every getter of the module is the one registered last
(`getter?_afterActs`): an explicit getter stays until an `export *` receives a value under its name.
-/

set_option autoImplicit false

namespace ModuleLinkage.Ledger

variable {α β : Type} {module : ModuleRef} {entry : EntryRef} {run : Runner} {isStar : Program → Bool}

/-! ### What `export *` is called with -/

/-- Whether a consumer is the callback of an `export *`. -/
def Consumer.reExports (isStar : Program → Bool) : Consumer → Bool
  | .callback _ lines _ => isStar lines
  | _ => false

/-- With which name and value a call calls the callback of an `export *`, unless the name is the
default one. -/
def World.starCall? (world : World) (isStar : Program → Bool) : Callback → Option (String × Value)
  | .provider _ => none
  | .consumer batch slot name value =>
    if ((world.batch batch).consumers.get? slot).any (Consumer.reExports isStar) && name != defaultName
    then some (name, value)
    else none

/-- What the callbacks of `export *` are called with by some calls, which are listed latest first. -/
def World.starCalls (world : World) (isStar : Program → Bool) (calls : List Callback) :
    List (String × Value) :=
  calls.reverse.filterMap (world.starCall? isStar)

/-- The name and the value under which an `export *` has registered a getter. -/
def Registered.starred? (item : Registered) : Option (String × Value) :=
  item.star.map (item.name, ·)

/-- Batches stay, with the consumers that they have. -/
structure World.Enlists (before after : World) : Prop where
  count : before.batches.size ≤ after.batches.size
  consumers : ∀ ref : BatchRef, ref.index < before.batches.size →
    (after.batch ref).consumers = (before.batch ref).consumers

/-- Only batches that exist were called. -/
def World.Called (world : World) (calls : List Callback) : Prop :=
  ∀ batch slot name value, .consumer batch slot name value ∈ calls → batch.index < world.batches.size

namespace World.Enlists

variable {first second third : World}

theorem trans (h : first.Enlists second) (h' : second.Enlists third) : first.Enlists third where
  count := Nat.le_trans h.count h'.count
  consumers ref href :=
    (h'.consumers ref (Nat.lt_of_lt_of_le href h.count)).trans (h.consumers ref href)

theorem of_keeps (h : first.Keeps second) : first.Enlists second where
  count := Nat.le_of_eq h.batchCount.symm
  consumers ref _ := h.consumers ref

theorem called (h : first.Enlists second) {calls : List Callback} (hcalls : first.Called calls) :
    second.Called calls :=
  fun batch slot name value hmem => Nat.lt_of_lt_of_le (hcalls batch slot name value hmem) h.count

/-- Calls of batches that exist call the same consumers later. -/
theorem starCalls (h : first.Enlists second) {calls : List Callback} (hcalls : first.Called calls) :
    second.starCalls isStar calls = first.starCalls isStar calls := by
  refine List.filterMap_congr fun call hcall => ?_
  cases call with
  | provider ref => rfl
  | consumer batch slot name value =>
    have hlt := hcalls batch slot name value (List.mem_reverse.mp hcall)
    rw [World.starCall?, h.consumers batch hlt, World.starCall?]

end World.Enlists

theorem World.starCalls_append (world : World) (isStar : Program → Bool) (later earlier : List Callback) :
    world.starCalls isStar (later ++ earlier) =
      world.starCalls isStar earlier ++ world.starCalls isStar later := by
  rw [starCalls, List.reverse_append, List.filterMap_append, starCalls, starCalls]

/-- In a stretch of a run `export *` has registered `registered`: first what it owed, and then, call by
call, what its callbacks were called with. If the run was cut off, because callbacks were nested too
deep, some of it may be missing. -/
structure Answered (expected : List (String × Value)) (cut : Prop) (registered : List Registered) :
    Prop where
  stars : ∀ item ∈ registered, item.star.isSome = true
  sublist : (registered.filterMap Registered.starred?).Sublist expected
  complete : ¬ cut → registered.filterMap Registered.starred? = expected

namespace Answered

variable {expected expected' : List (String × Value)} {cut cut' : Prop}
  {registered registered' : List Registered}

theorem append (h : Answered expected cut registered) (h' : Answered expected' cut' registered') :
    Answered (expected ++ expected') (cut ∨ cut') (registered ++ registered') where
  stars item hitem := (List.mem_append.mp hitem).elim (h.stars item) (h'.stars item)
  sublist := by
    rw [List.filterMap_append]
    exact h.sublist.append h'.sublist
  complete hcut := by
    rw [not_or] at hcut
    rw [List.filterMap_append, h.complete hcut.1, h'.complete hcut.2]

theorem weaken (h : Answered expected cut registered) (hcut : cut → cut') :
    Answered expected cut' registered :=
  { h with complete := fun hnot => h.complete fun h => hnot (hcut h) }

theorem nil : Answered [] cut [] :=
  ⟨fun _ h => absurd h List.not_mem_nil, List.nil_sublist _, fun _ => rfl⟩

end Answered

/-- From one world to another one nothing but `export *` registers getters of a module, and what it
registers is what it owes and what its callbacks are called with. -/
structure StarRun (module : ModuleRef) (entry : EntryRef) (isStar : Program → Bool)
    (owed : List (String × Value)) (cut : Prop) (before after : World) : Prop where
  enlists : before.Enlists after
  registers : World.Placed module entry before → ∃ calls registered,
    Run module entry before registered after ∧ after.calls = calls ++ before.calls ∧
      after.Called calls ∧ Answered (owed ++ after.starCalls isStar calls) cut registered

namespace StarRun

variable {owed : List (String × Value)} {cut cut' : Prop} {first second third : World}

theorem trans (h : StarRun module entry isStar owed cut first second)
    (h' : StarRun module entry isStar [] cut' second third) :
    StarRun module entry isStar owed (cut ∨ cut') first third where
  enlists := h.enlists.trans h'.enlists
  registers hplaced := by
    obtain ⟨calls, registered, hrun, hcalls, hcalled, hanswered⟩ := h.registers hplaced
    obtain ⟨calls', registered', hrun', hcalls', hcalled', hanswered'⟩ :=
      h'.registers (hrun.placed hplaced)
    refine ⟨calls' ++ calls, _, hrun.trans hrun', ?_, fun batch slot name value hmem => ?_, ?_⟩
    · rw [hcalls', hcalls, List.append_assoc]
    · exact (List.mem_append.mp hmem).elim (hcalled' batch slot name value)
        (h'.enlists.called hcalled batch slot name value)
    · rw [World.starCalls_append, h'.enlists.starCalls hcalled, ← List.append_assoc]
      exact hanswered.append hanswered'

theorem weaken (h : StarRun module entry isStar owed cut first second) (hcut : cut → cut') :
    StarRun module entry isStar owed cut' first second where
  enlists := h.enlists
  registers hplaced := by
    obtain ⟨calls, registered, hrun, hcalls, hcalled, hanswered⟩ := h.registers hplaced
    exact ⟨calls, registered, hrun, hcalls, hcalled, hanswered.weaken hcut⟩

/-- A stretch in which nothing is registered and nothing but providers is called. -/
theorem of_asked (refs : List ProviderRef) (h : first.Keeps second)
    (hcalls : second.calls = refs.map .provider ++ first.calls) :
    StarRun module entry isStar [] cut first second where
  enlists := .of_keeps h
  registers _ := by
    have hnone : second.starCalls isStar (refs.map .provider) = [] := by
      refine List.filterMap_eq_nil_iff.mpr fun call hcall => ?_
      obtain ⟨ref, -, rfl⟩ := List.mem_map.mp (List.mem_reverse.mp hcall)
      rfl
    refine ⟨_, [], .elsewhere .start h.leaves, hcalls, fun batch slot name value hmem => ?_, ?_⟩
    · obtain ⟨ref, -, href⟩ := List.mem_map.mp hmem
      cases href
    · rw [hnone]
      exact .nil

theorem of_keeps (h : first.Keeps second) (hcalls : second.calls = first.calls) :
    StarRun module entry isStar [] cut first second :=
  of_asked [] h hcalls

theorem of_alike (h : first.Alike second) : StarRun module entry isStar [] cut first second :=
  of_keeps h.toKeeps h.calls

theorem refl (world : World) : StarRun module entry isStar [] cut world world :=
  of_alike (.refl world)

/-- What is called first is owed by what follows. -/
theorem after_calls {made : List Callback} (hkeeps : first.Keeps second)
    (hcalls : second.calls = made ++ first.calls) (hmade : second.Called made)
    (h : StarRun module entry isStar (owed ++ second.starCalls isStar made) cut second third) :
    StarRun module entry isStar owed cut first third where
  enlists := (World.Enlists.of_keeps hkeeps).trans h.enlists
  registers hplaced := by
    obtain ⟨calls, registered, hrun, hcalls', hcalled, hanswered⟩ := h.registers (hkeeps.placed hplaced)
    refine ⟨calls ++ made, registered, Run.trans (.elsewhere .start hkeeps.leaves) hrun, ?_,
      fun batch slot name value hmem => ?_, ?_⟩
    · rw [hcalls', hcalls, List.append_assoc]
    · exact (List.mem_append.mp hmem).elim (hcalled batch slot name value)
        (h.enlists.called hmade batch slot name value)
    · rwa [World.starCalls_append, h.enlists.starCalls hmade, ← List.append_assoc]

/-- What is owed may be put off while nothing else happens. -/
theorem after_alike (halike : first.Alike second)
    (h : StarRun module entry isStar owed cut second third) :
    StarRun module entry isStar owed cut first third := by
  refine after_calls halike.toKeeps halike.calls (fun _ _ _ _ hmem => absurd hmem List.not_mem_nil) ?_
  rwa [World.starCalls, List.map_nil, List.reverse_nil, List.filterMap_nil, List.append_nil]

end StarRun

namespace Effect

/-- Whether callbacks were nested too deep. -/
def isCut (outcome : Except Fault α) : Prop :=
  outcome = .error .exhausted

/-- Whatever comes of an effect, nothing but `export *` registers getters of a module meanwhile, and it
registers what its callbacks are called with. -/
def Leads (module : ModuleRef) (entry : EntryRef) (isStar : Program → Bool) (action : Effect α) :
    Prop :=
  ∀ world, StarRun module entry isStar [] (isCut (action.outcome world).1) world (action.outcome world).2

/-- The rule for sequencing, from one world. -/
theorem starRun_bind {action : Effect α} {next : α → Effect β} {owed : List (String × Value)}
    {world : World}
    (h : StarRun module entry isStar owed (isCut (action.outcome world).1) world (action.outcome world).2)
    (hnext : ∀ value after, action.outcome world = (.ok value, after) → world.Enlists after →
      StarRun module entry isStar [] (isCut ((next value).outcome after).1) after
        ((next value).outcome after).2) :
    StarRun module entry isStar owed (isCut ((action >>= next).outcome world).1) world
      ((action >>= next).outcome world).2 := by
  rw [outcome_bind]
  rcases houtcome : action.outcome world with ⟨fault | value, after⟩
  · rw [houtcome] at h
    exact h.weaken fun hcut => congrArg Except.error (Except.error.inj hcut)
  · rw [houtcome] at h
    exact (h.trans (hnext value after houtcome h.enlists)).weaken fun hcut => hcut.resolve_left nofun

theorem Leads.bind {action : Effect α} {next : α → Effect β} (h : Leads module entry isStar action)
    (hnext : ∀ value, Leads module entry isStar (next value)) :
    Leads module entry isStar (action >>= next) :=
  fun world => starRun_bind (h world) fun value after _ _ => hnext value after

theorem Leads.holding {action : Effect α} (things : List Holding) (h : Leads module entry isStar action) :
    Leads module entry isStar (holding things action) := by
  intro world
  rw [outcome_holding]
  have hbefore := world.alike_held (things ++ world.held)
  exact (StarRun.after_alike hbefore (h _)).trans (.of_alike (World.alike_held _ world.held))
    |>.weaken fun hcut => hcut.resolve_right id

end Effect

open Effect

/-! ### Values and names -/

/-- What a program owes that is run as a consumer's callback: the callback of an `export *` owes what it
receives, unless that is the default. -/
def Scope.owes (isStar : Program → Bool) (scope : Scope) (label : String) (lines : Program) :
    List (String × Value) :=
  match scope.received with
  | some (value, name) =>
    if label == "setter" && isStar lines && name != defaultName then [(name, value)] else []
  | none => []

/-- What is asked of the programs that callbacks run: that they register getters of a module only by
`export *`, which registers what it owes and what it is called with. -/
def Runner.Leads (module : ModuleRef) (entry : EntryRef) (isStar : Program → Bool) (run : Runner) :
    Prop :=
  ∀ (scope : Scope) (label : String) (lines : Program) (world : World),
    StarRun module entry isStar (scope.owes isStar label lines)
      (isCut ((run scope label lines).outcome world).1) world ((run scope label lines).outcome world).2

/-- What a consumer owes that is called. -/
def Consumer.owes (isStar : Program → Bool) (consumer : Consumer) (name : String) (value : Value) :
    List (String × Value) :=
  if consumer.reExports isStar && name != defaultName then [(name, value)] else []

end ModuleLinkage.Ledger
