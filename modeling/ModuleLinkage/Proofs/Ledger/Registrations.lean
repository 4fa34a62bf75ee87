import ModuleLinkage.Proofs.Ledger.Commands
import ModuleLinkage.Proofs.Ledger.Delivery

/-!
# What the getters of a module come from

The getters of a module change when the module exports something itself, and when a module all of
whose exports it exports again delivers a value: the callback of such an `export *` registers a
constant getter of the value under the name received, unless that name is `default` (`reExport`).
`Run` is a run of a world as the getters of one module see it: a sequence of these two steps, with
anything else in between that leaves the module's getters alone. A registration replaces whatever is
registered under its name, so after a run every getter is the one registered last
(`Run.getter?_eq_latest?`).
-/

set_option autoImplicit false

namespace ModuleLinkage.Ledger

/-- What the callback of an `export *` does with a name and a value: a constant getter of the value is
registered under the name, unless it is the default name. -/
def reExport (run : Runner) (module : ModuleRef) (name : String) (value : Value) : Effect Unit :=
  if name == defaultName then return ()
  else do
    let provider ← modifyGet (·.newProvider (.value value))
    provide run module (Table.ofList [(name, provider)]) true

namespace World

/-- Registers providers of a module's exports. -/
def register (world : World) (module : ModuleRef) (providers : Table ProviderRef)
    (isConstant : Bool) : World :=
  (world.claimExports module).2.addProviders (world.claimExports module).1 providers isConstant

/-- The exports of a module are known as such and have the given entry. -/
structure Placed (module : ModuleRef) (entry : EntryRef) (world : World) : Prop where
  isModule : (world.space (world.module module).exports).isModule = true
  entryOf : (world.space (world.module module).exports).entry = some entry
  entry_lt : entry.index < world.entries.size

/-- The getters of a module, and whatever a provider yields its values from, stay the same. -/
structure Leaves (module : ModuleRef) (entry : EntryRef) (before after : World) : Prop where
  placed : Placed module entry before → Placed module entry after
  exported : (after.entry entry).exported = (before.entry entry).exported
  providerCount : before.providers.size ≤ after.providers.size
  source : ∀ ref : ProviderRef, ref.index < before.providers.size →
    (after.provider ref).source = (before.provider ref).source

variable {module : ModuleRef} {entry : EntryRef} {world before after : World}

theorem Keeps.placed (h : before.Keeps after) (hplaced : Placed module entry before) :
    Placed module entry after where
  isModule := by rw [h.module, h.isModule, hplaced.isModule]
  entryOf := by rw [h.module, h.entryOf, hplaced.entryOf]
  entry_lt := h.entryCount ▸ hplaced.entry_lt

theorem Keeps.leaves (h : before.Keeps after) : before.Leaves module entry after where
  placed := h.placed
  exported := h.exported entry
  providerCount := Nat.le_of_eq h.providerCount.symm
  source ref _ := h.source ref

theorem leaves_newProvider (source : Source) :
    world.Leaves module entry (world.newProvider source).2 where
  placed h := ⟨h.isModule, h.entryOf, h.entry_lt⟩
  exported := rfl
  providerCount := by
    rw [newProvider, Store.size_add]
    exact Nat.le_succ _
  source ref href := congrArg Provider.source (Store.get_add_of_lt world.providers _ href)

end World

/-! ### Runs -/

/-- A getter that was registered: under which name, its provider, whether it is constant, and the
value if it was an `export *` that registered it. -/
structure Registered where
  name : String
  provider : ProviderRef
  isConstant : Bool
  star : Option Value

namespace Registered

/-- What a module exports itself. -/
def own (isConstant : Bool) (row : String × ProviderRef) : Registered :=
  ⟨row.1, row.2, isConstant, none⟩

/-- The getter registered last under a name. -/
def latest? (name : String) (registered : List Registered) : Option (ProviderRef × Bool) :=
  (registered.reverse.find? fun item => item.name == name).map fun item =>
    (item.provider, item.isConstant)

theorem latest?_append (name : String) (first second : List Registered) :
    latest? name (first ++ second) = (latest? name second).or (latest? name first) := by
  rw [latest?, List.reverse_append, List.find?_append]
  unfold latest?
  cases second.reverse.find? _ <;> rfl

end Registered

open Registered (latest?)

/-- A run of a world, as the getters of one module see it. The list holds what is registered, first
things first. -/
inductive Run (module : ModuleRef) (entry : EntryRef) (start : World) : List Registered → World → Prop
  | start : Run module entry start [] start
  | elsewhere {registered : List Registered} {world after : World}
      (h : Run module entry start registered world) (hleaves : world.Leaves module entry after) :
      Run module entry start registered after
  | own {registered : List Registered} {world : World} (providers : Table ProviderRef)
      (isConstant : Bool) (h : Run module entry start registered world) :
      Run module entry start (registered ++ providers.rows.map (.own isConstant))
        (world.register module providers isConstant)
  | star {registered : List Registered} {world : World} (name : String) (value : Value)
      (h : Run module entry start registered world) (hname : name ≠ defaultName) :
      Run module entry start
        (registered ++ [⟨name, (world.newProvider (.value value)).1, true, some value⟩])
        ((world.newProvider (.value value)).2.register module
          (Table.ofList [(name, (world.newProvider (.value value)).1)]) true)

namespace World

variable {module : ModuleRef} {entry : EntryRef} {world : World}

theorem Placed.claimExports (h : Placed module entry world) :
    (world.claimExports module).1 = entry ∧ world.Alike (world.claimExports module).2 :=
  alike_claimExports h.isModule h.entryOf

theorem Placed.addProviders (h : Placed module entry world) (providers : Table ProviderRef)
    (isConstant : Bool) : Placed module entry (world.addProviders entry providers isConstant) where
  isModule := h.isModule
  entryOf := h.entryOf
  entry_lt := Nat.lt_of_lt_of_eq h.entry_lt (Store.size_update ..).symm

/-- A registration leaves the module where it is. -/
theorem Placed.register (h : Placed module entry world) (providers : Table ProviderRef)
    (isConstant : Bool) : Placed module entry (world.register module providers isConstant) := by
  obtain ⟨hfound, halike⟩ := h.claimExports
  rw [World.register, hfound]
  exact (halike.toKeeps.placed h).addProviders providers isConstant

end World

namespace Run

variable {module : ModuleRef} {entry : EntryRef} {start middle after : World}
  {first second registered : List Registered}

theorem trans (h : Run module entry start first middle) (h' : Run module entry middle second after) :
    Run module entry start (first ++ second) after := by
  induction h' with
  | start => rwa [List.append_nil]
  | elsewhere _ hleaves ih => exact .elsewhere ih hleaves
  | own providers isConstant _ ih =>
    rw [← List.append_assoc]
    exact .own providers isConstant ih
  | star name value _ hname ih =>
    rw [← List.append_assoc]
    exact .star name value ih hname

theorem placed (h : Run module entry start registered after)
    (hstart : World.Placed module entry start) : World.Placed module entry after := by
  induction h with
  | start => exact hstart
  | elsewhere _ hleaves ih => exact hleaves.placed ih
  | own providers isConstant _ ih => exact ih.register providers isConstant
  | star name value _ _ ih => exact ((World.leaves_newProvider _).placed ih).register _ _

end Run

end ModuleLinkage.Ledger
