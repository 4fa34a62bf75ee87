import ModuleLinkage.Proofs.Ledger.Course.Move

/-!
# What is in sight

A program gets at a namespace by a name, as the exports of a module, or by having a value shown that
the namespace is, which gives it a name. So it never gets at a namespace to which nothing of all
that leads. A sight (`Sight`) tells some namespaces from the others, and a world is in sight
(`World.InSight`) if names, exports and whatever things keep lead to the former only.

An act (`Act`) is a move that keeps the world in sight and writes to no namespace that is out of sight.
There is one lemma here for each change that effects make: what it takes for the change to be an act.
-/

set_option autoImplicit false

namespace ModuleLinkage.Ledger

/-! ### Sights -/

/-- The namespaces that are in sight, by the number of namespaces there are. A new namespace always
is. -/
structure Sight where
  sees : Nat → NamespaceRef → Prop
  /-- The batches that may keep namespaces that are out of sight. -/
  hides : BatchRef → Prop
  /-- How many namespaces there are at least. -/
  start : Nat
  mono : ∀ {count later : Nat} {ref : NamespaceRef}, count ≤ later → sees count ref → sees later ref
  zero : ∀ count, sees count ⟨0⟩
  fresh : ∀ {count : Nat}, start ≤ count → sees (count + 1) ⟨count⟩

namespace Sight

/-- Everything is in sight. -/
def all : Sight where
  sees _ _ := True
  hides _ := False
  start := 0
  mono _ _ := trivial
  zero _ := trivial
  fresh _ := trivial

/-- What exists is in sight. -/
def existing : Sight where
  sees count ref := ref.index = 0 ∨ ref.index < count
  hides _ := False
  start := 0
  mono hle h := h.imp_right fun hlt => Nat.lt_of_lt_of_le hlt hle
  zero _ := .inl rfl
  fresh _ := .inr (Nat.lt_succ_self _)

/-- Everything is in sight but one namespace, which one batch keeps. -/
def without (space : NamespaceRef) (batch : BatchRef) (hspace : space.index ≠ 0) : Sight where
  sees _ ref := ref ≠ space
  hides other := other = batch
  start := space.index + 1
  mono _ h := h
  zero _ h := hspace (congrArg NamespaceRef.index h).symm
  fresh hle h := Nat.lt_irrefl _ (Nat.lt_of_lt_of_le (Nat.lt_succ_self _) (h ▸ hle))

/-- What is in sight among `count` namespaces is so among `later` ones. -/
def Lasts (sight : Sight) (count later : Nat) : Prop :=
  ∀ ref, sight.sees count ref → sight.sees later ref

/-- The namespaces among some things are in sight. -/
def Shows (sight : Sight) (count : Nat) (things : List Holding) : Prop :=
  ∀ ref, .space ref ∈ things → sight.sees count ref

variable {sight : Sight} {count later last : Nat} {things other : List Holding}

theorem lasts_of_le (h : count ≤ later) : sight.Lasts count later :=
  fun _ => sight.mono h

theorem Lasts.refl (sight : Sight) (count : Nat) : sight.Lasts count count :=
  fun _ => id

theorem Lasts.trans (h : sight.Lasts count later) (h' : sight.Lasts later last) :
    sight.Lasts count last :=
  fun ref href => h' ref (h ref href)

theorem Shows.mono (h : sight.Shows count things) (hlasts : sight.Lasts count later) :
    sight.Shows later things :=
  fun ref hmem => hlasts ref (h ref hmem)

theorem shows_nil : sight.Shows count [] :=
  fun _ h => absurd h List.not_mem_nil

theorem shows_append :
    sight.Shows count (things ++ other) ↔ sight.Shows count things ∧ sight.Shows count other := by
  simp only [Shows, List.mem_append]
  exact ⟨fun h => ⟨fun ref hmem => h ref (.inl hmem), fun ref hmem => h ref (.inr hmem)⟩,
    fun h ref hmem => hmem.elim (h.1 ref) (h.2 ref)⟩

theorem shows_flatMap {α : Type} {items : List α} {part : α → List Holding} :
    sight.Shows count (items.flatMap part) ↔ ∀ item ∈ items, sight.Shows count (part item) := by
  simp only [Shows, List.mem_flatMap]
  exact ⟨fun h item hitem ref hmem => h ref ⟨item, hitem, hmem⟩,
    fun h ref ⟨item, hitem, hmem⟩ => h item hitem ref hmem⟩

theorem shows_spaces {spaces : List NamespaceRef} :
    sight.Shows count (spaces.map .space) ↔ ∀ ref ∈ spaces, sight.sees count ref := by
  simp [Shows]

/-- A namespace is among what the value keeps that it is. -/
theorem shows_space {ref : NamespaceRef} :
    sight.Shows count (Value.holdings (.space ref)) ↔ sight.sees count ref := by
  simp [Shows, Value.holdings, Value.spaces]

theorem shows_all (count : Nat) (things : List Holding) : Sight.all.Shows count things :=
  fun _ _ => trivial

end Sight

open Sight

namespace World

/-- Names, exports and whatever things keep lead to namespaces in sight only. -/
structure InSight (sight : Sight) (world : World) : Prop where
  start : sight.start ≤ world.spaces.size
  named : ∀ row ∈ world.names.spaces.rows, sight.sees world.spaces.size row.2
  entries : ∀ ref, sight.sees world.spaces.size (world.entry ref).space
  kept : ∀ thing, (∀ batch, thing = .batch batch → ¬ sight.hides batch) →
    sight.Shows world.spaces.size (world.holdings thing)

/-- The host has loaded modules only where there are namespaces. -/
def Grounded (world : World) : Prop :=
  world.names.loaded.rows ≠ [] → 0 < world.spaces.size

theorem inSight_all (world : World) : world.InSight Sight.all where
  start := Nat.zero_le _
  named _ _ := trivial
  entries _ := trivial
  kept _ _ := shows_all _ _

theorem inSight_ofHost (host : Host) : (World.ofHost host).InSight Sight.existing where
  start := Nat.zero_le _
  named _ h := absurd h List.not_mem_nil
  entries _ := .inl rfl
  kept thing _ := by
    cases thing with
    | module ref =>
      intro space hspace
      obtain ⟨rfl⟩ : Holding.space space = .space ⟨0⟩ := List.mem_singleton.mp hspace
      exact .inl rfl
    | _ => exact shows_nil

namespace InSight

variable {sight : Sight} {world : World}

theorem exports (h : world.InSight sight) (ref : ModuleRef) :
    sight.sees world.spaces.size (world.module ref).exports :=
  h.kept (.module ref) nofun _ (List.mem_singleton.mpr rfl)

theorem member (h : world.InSight sight) {ref : NamespaceRef} {row : String × Value}
    (hrow : row ∈ (world.space ref).members.rows) :
    sight.Shows world.spaces.size row.2.holdings :=
  shows_flatMap.mp (shows_append.mp (h.kept (.space ref) nofun)).1 row hrow

/-- What a namespace has under a name is in sight. -/
theorem memberAt (h : world.InSight sight) (ref : NamespaceRef) (name : String) :
    sight.Shows world.spaces.size
      (((world.space ref).members.get? name).toList.flatMap Value.holdings) := by
  refine shows_flatMap.mpr fun value hvalue => ?_
  obtain ⟨row, hrow, rfl⟩ := Option.map_eq_some_iff.mp (Option.mem_toList.mp hvalue)
  exact h.member (List.mem_of_find?_eq_some hrow)

theorem slots (h : world.InSight sight) (ref : EntryRef) :
    sight.Shows world.spaces.size (slotHoldings (world.entry ref).slots.rows) :=
  (shows_append.mp (h.kept (.entry ref) nofun)).1

theorem source (h : world.InSight sight) (ref : ProviderRef) :
    sight.Shows world.spaces.size (world.provider ref).source.holdings :=
  h.kept (.provider ref) nofun

theorem binding (h : world.InSight sight) {ref : BindingRef} {value : Value}
    (hvalue : world.binding ref = some value) : sight.Shows world.spaces.size value.holdings :=
  shows_flatMap.mp (h.kept (.binding ref) nofun) value (Option.mem_toList.mpr hvalue)

theorem batch (h : world.InSight sight) {ref : BatchRef} (href : ¬ sight.hides ref) :
    sight.Shows world.spaces.size (world.batch ref).holdings :=
  h.kept (.batch ref) fun _ heq => (Holding.batch.inj heq) ▸ href

/-- The namespaces of a batch are in sight, if it hides nothing. -/
theorem spaces (h : world.InSight sight) {ref : BatchRef} (href : ¬ sight.hides ref) :
    ∀ space ∈ (world.batch ref).spaces, sight.sees world.spaces.size space :=
  shows_spaces.mp (shows_append.mp (shows_append.mp (h.batch href)).1).2

/-- What consumers of a batch keep is in sight, if it hides nothing. -/
theorem consumer (h : world.InSight sight) {ref : BatchRef} (href : ¬ sight.hides ref)
    {row : String × Consumer} (hrow : row ∈ (world.batch ref).consumers.rows) :
    sight.Shows world.spaces.size row.2.holdings :=
  shows_flatMap.mp (shows_append.mp (shows_append.mp (h.batch href)).1).1 row hrow

/-- A change that makes nothing lead to namespaces that are out of sight. -/
theorem of_kept {after : World} (h : world.InSight sight)
    (hcount : world.spaces.size ≤ after.spaces.size)
    (hnamed : ∀ row ∈ after.names.spaces.rows,
      row ∈ world.names.spaces.rows ∨ sight.sees after.spaces.size row.2)
    (hentries : ∀ ref, (after.entry ref).space = (world.entry ref).space ∨
      sight.sees after.spaces.size (after.entry ref).space)
    (hkept : ∀ thing, (∀ batch, thing = .batch batch → ¬ sight.hides batch) →
      ∀ ref, .space ref ∈ after.holdings thing →
        .space ref ∈ world.holdings thing ∨ sight.sees after.spaces.size ref) :
    after.InSight sight where
  start := Nat.le_trans h.start hcount
  named row hrow := by
    rcases hnamed row hrow with hold | hnew
    · exact sight.mono hcount (h.named row hold)
    · exact hnew
  entries ref := by
    rcases hentries ref with hsame | hnew
    · rw [hsame]
      exact sight.mono hcount (h.entries ref)
    · exact hnew
  kept thing hthing ref hmem := by
    rcases hkept thing hthing ref hmem with hold | hnew
    · exact sight.mono hcount (h.kept thing hthing ref hold)
    · exact hnew

end InSight

end World

/-! ### Acts -/

/-- A move that keeps the world in sight and writes to no namespace that is out of sight; and it
notes no dynamic import as polled, unless it does just this. -/
structure Act (allowed : Command → Prop) (sight : Sight) (world after : World) : Prop where
  move : Move allowed world after
  inSight : after.InSight sight
  spares : ∀ ref, ¬ sight.sees world.spaces.size ref →
    (after.space ref).members = (world.space ref).members
  defers : ∀ ref, (after.dynamicImport ref).isDeferred = (world.dynamicImport ref).isDeferred ∨
    after = world.deferImport ref
  grounds : world.Grounded → after.Grounded

variable {allowed : Command → Prop} {sight : Sight} {world after : World}

/-- Namespaces are made and never unmade. -/
theorem Move.grows (h : Move allowed world after) : world.spaces.size ≤ after.spaces.size := by
  cases h with
  | noted h => exact Nat.le_of_eq (congrArg (·.spaces.size) h).symm
  | newSpace | newModule =>
    exact Nat.le_of_lt (Nat.lt_of_lt_of_eq (Nat.lt_succ_self _) (Store.size_add ..).symm)
  | setMember | removeMember | markModule => exact Nat.le_of_eq (Store.size_update ..).symm
  | enable =>
    unfold World.enable
    split <;> exact Nat.le_refl _
  | entryFor =>
    unfold World.entryFor
    split
    · exact Nat.le_refl _
    · exact Nat.le_of_eq (Store.size_update ..).symm
  | settleOwner =>
    unfold World.settleOwner
    split <;> exact Nat.le_refl _
  | addConsumers entry module consumers key spaces =>
    exact Nat.le_of_eq (world.renewed_addConsumers entry module consumers key spaces).spaceCount.symm
  | writeThrough batch name value =>
    exact Nat.le_of_eq (world.keeps_writeThrough batch name value).spaceCount.symm
  | _ => exact Nat.le_refl _

namespace Act

/-- A change that has to do neither with what namespaces show nor with dynamic imports nor with what the
host has loaded. -/
theorem of_parts (hmove : Move allowed world after) (hinSight : after.InSight sight)
    (hspaces : ∀ ref, (after.space ref).members = (world.space ref).members)
    (himports : after.imports = world.imports) (hloaded : after.names.loaded = world.names.loaded) :
    Act allowed sight world after where
  move := hmove
  inSight := hinSight
  spares ref _ := hspaces ref
  defers ref := .inl (by rw [World.dynamicImport, himports, World.dynamicImport])
  grounds h hrows := Nat.lt_of_lt_of_le (h (hloaded ▸ hrows)) hmove.grows

end Act

namespace World.InSight

variable (h : world.InSight sight)

include h

/-- Only names, held things, counted labels and reports are different, and no name leads out of
sight. -/
theorem act_noted (hnoted : world.Noted after) (himports : after.imports = world.imports)
    (hgrounded : world.Grounded → after.Grounded)
    (hnamed : ∀ row ∈ after.names.spaces.rows,
      row ∈ world.names.spaces.rows ∨ sight.sees world.spaces.size row.2) :
    Act allowed sight world after := by
  have hinSight : after.InSight sight := by
    rw [hnoted] at hnamed ⊢
    exact h.of_kept (Nat.le_refl _) hnamed (fun _ => .inl rfl) fun thing _ ref hmem =>
      .inl (by cases thing <;> exact hmem)
  refine
    { move := .noted hnoted, inSight := hinSight, spares := fun ref _ => ?_
      defers := fun ref => .inl ?_, grounds := hgrounded }
  · rw [hnoted]
    rfl
  · rw [World.dynamicImport, himports, World.dynamicImport]

theorem act_nameSpace (name : String) {ref : NamespaceRef}
    (hspace : sight.sees world.spaces.size ref) : Act allowed sight world (world.nameSpace name ref) := by
  refine h.act_noted rfl rfl id fun row hrow => ?_
  refine (Table.mem_rows_put hrow).imp_right fun hnew => ?_
  rw [hnew]
  exact hspace

/-- The host notes a module, where there are namespaces. -/
theorem act_noteLoaded (hspaces : 0 < world.spaces.size) (id : String) (module : ModuleRef) :
    Act allowed sight world (world.updateNames fun names => { names with
      modules := names.modules.put id module, loaded := names.loaded.put id module }) :=
  h.act_noted rfl rfl (fun _ _ => hspaces) fun _ => .inl

/-- A new dynamic import was not polled. -/
theorem act_newImport (module : ModuleRef) (specifier : String) :
    Act allowed sight world (world.newImport module specifier).2 := by
  have hinSight : (world.newImport module specifier).2.InSight sight :=
    h.of_kept (Nat.le_refl _) (fun _ => .inl) (fun _ => .inl rfl) fun thing _ ref hmem =>
      .inl (by cases thing <;> exact hmem)
  refine
    { move := .noted rfl, inSight := hinSight, spares := fun _ _ => rfl
      defers := fun ref => .inl ?_, grounds := id }
  have himport : (world.newImport module specifier).2.dynamicImport ref =
      if ref.index = world.imports.size then ⟨module, specifier, false⟩
      else world.dynamicImport ref := Store.get_add _ _ _
  rw [himport]
  split
  · next hnew =>
    rw [World.dynamicImport, Store.get_of_size_le _ (Nat.le_of_eq hnew.symm)]
    rfl
  · rfl

theorem act_deferImport (pending : ImportRef) : Act allowed sight world (world.deferImport pending) := by
  have hinSight : (world.deferImport pending).InSight sight :=
    h.of_kept (Nat.le_refl _) (fun _ => .inl) (fun _ => .inl rfl) fun thing _ ref hmem =>
      .inl (by cases thing <;> exact hmem)
  refine
    { move := .noted rfl, inSight := hinSight, spares := fun _ _ => rfl
      defers := fun ref => ?_, grounds := id }
  by_cases href : ref = pending
  · exact .inr (href ▸ rfl)
  · refine .inl (congrArg DynamicImport.isDeferred (Store.get_update_of_ne _ _ fun heq => href ?_))
    cases ref
    exact congrArg ImportRef.mk heq

/-! ### Variables -/

theorem act_newBinding {value : Option Value}
    (hvalue : sight.Shows world.spaces.size (value.toList.flatMap Value.holdings)) :
    Act allowed sight world (world.newBinding value).2 := by
  have hbinding (ref : BindingRef) : (world.newBinding value).2.binding ref =
      if ref.index = world.bindings.size then value else world.binding ref := Store.get_add _ _ _
  refine .of_parts (.newBinding value) ?_ (fun _ => rfl) rfl rfl
  refine h.of_kept (Nat.le_refl _) (fun _ => .inl) (fun _ => .inl rfl) fun thing _ ref hmem => ?_
  cases thing with
  | binding other =>
    change _ ∈ ((world.newBinding value).2.binding other).toList.flatMap Value.holdings at hmem
    rw [hbinding] at hmem
    split at hmem
    · exact .inr (hvalue ref hmem)
    · exact .inl hmem
  | _ => exact .inl hmem

theorem act_setBinding (ref : BindingRef) {value : Value}
    (hvalue : sight.Shows world.spaces.size value.holdings) :
    Act allowed sight world (world.setBinding ref value) := by
  refine .of_parts (.setBinding ref value) ?_ (fun _ => rfl) rfl rfl
  refine h.of_kept (Nat.le_refl _) (fun _ => .inl) (fun _ => .inl rfl) fun thing _ space hmem => ?_
  cases thing with
  | binding other =>
    change _ ∈ ((world.setBinding ref value).binding other).toList.flatMap Value.holdings at hmem
    rw [world.binding_setBinding] at hmem
    split at hmem
    · exact .inr (hvalue space (by simpa using hmem))
    · exact .inl hmem
  | _ => exact .inl hmem

/-! ### Namespaces -/

omit h in
/-- What a namespace keeps leads to namespaces by its members. -/
theorem mem_holdings_space {ref : NamespaceRef} {space : Namespace} :
    .space ref ∈ space.holdings ↔ ∃ row ∈ space.members.rows, .space ref ∈ row.2.holdings := by
  simp [Namespace.holdings]

/-- A change of namespaces that gives them no members but from sight. -/
theorem of_spaces {after : World} (hcount : world.spaces.size ≤ after.spaces.size)
    (hrest : after = { world with spaces := after.spaces })
    (hmembers : ∀ ref, ∀ row ∈ (after.space ref).members.rows,
      row ∈ (world.space ref).members.rows ∨ sight.Shows world.spaces.size row.2.holdings) :
    after.InSight sight := by
  have hkept (thing : Holding) (ref : NamespaceRef) (hmem : .space ref ∈ after.holdings thing) :
      .space ref ∈ world.holdings thing ∨ sight.sees after.spaces.size ref := by
    cases thing with
    | space other =>
      obtain ⟨row, hrow, hmem⟩ := mem_holdings_space.mp hmem
      rcases hmembers other row hrow with hold | hnew
      · exact .inl (mem_holdings_space.mpr ⟨row, hold, hmem⟩)
      · exact .inr (hnew.mono (lasts_of_le hcount) ref hmem)
    | _ =>
      rw [hrest] at hmem
      exact .inl hmem
  refine h.of_kept hcount (fun row hrow => ?_) (fun ref => ?_) fun thing _ => hkept thing
  · rw [hrest] at hrow
    exact .inl hrow
  · rw [hrest]
    exact .inl rfl

omit h in
/-- A new namespace has no members. -/
theorem members_newSpace (isModule : Bool) (ref : NamespaceRef) :
    ((world.newSpace isModule).2.space ref).members = (world.space ref).members := by
  have hspace : (world.newSpace isModule).2.space ref =
      if ref.index = world.spaces.size then ⟨.empty, isModule, none⟩ else world.space ref :=
    Store.get_add _ _ _
  rw [hspace]
  split
  · next hnew =>
    rw [world.space_of_size_le (Nat.le_of_eq hnew.symm)]
    rfl
  · rfl

theorem act_newSpace (isModule : Bool) : Act allowed sight world (world.newSpace isModule).2 := by
  have hmove : Move allowed world (world.newSpace isModule).2 := .newSpace isModule
  refine .of_parts hmove ?_ (members_newSpace isModule) rfl rfl
  refine h.of_spaces hmove.grows rfl fun ref row hrow => ?_
  rw [members_newSpace] at hrow
  exact .inl hrow

/-- A value in sight that is put into a namespace, whether this is in sight or not. -/
theorem setMember (ref : NamespaceRef) (name : String) {value : Value}
    (hvalue : sight.Shows world.spaces.size value.holdings) :
    (world.setMember ref name value).InSight sight := by
  refine h.of_spaces (Nat.le_of_eq (Store.size_update ..).symm) rfl fun other row hrow => ?_
  rw [World.setMember, world.space_updateSpace] at hrow
  split at hrow
  · next hsame =>
    rcases Table.mem_rows_put hrow with hold | hnew
    · exact .inl (hsame.1 ▸ hold)
    · rw [hnew]
      exact .inr hvalue
  · exact .inl hrow

omit h in
/-- A value that is put into a namespace goes to no other one. -/
theorem members_setMember_of_ne {ref other : NamespaceRef} (hne : other ≠ ref) (name : String)
    (value : Value) :
    ((world.setMember ref name value).space other).members = (world.space other).members := by
  rw [World.setMember, world.space_updateSpace, if_neg fun hsame => hne hsame.1]

theorem act_setMember {ref : NamespaceRef} (name : String) {value : Value}
    (hspace : sight.sees world.spaces.size ref)
    (hvalue : sight.Shows world.spaces.size value.holdings) :
    Act allowed sight world (world.setMember ref name value) where
  move := .setMember ref name value
  inSight := h.setMember ref name hvalue
  spares other hother := members_setMember_of_ne (by rintro rfl; exact hother hspace) name value
  defers _ := .inl rfl
  grounds hgrounded hrows :=
    Nat.lt_of_lt_of_eq (hgrounded hrows) (world.keeps_setMember ref name value).spaceCount.symm

theorem act_removeMember {ref : NamespaceRef} (name : String)
    (hspace : sight.sees world.spaces.size ref) :
    Act allowed sight world (world.removeMember ref name) := by
  have hafter (other : NamespaceRef) := world.space_updateSpace ref
    (fun space => { space with members := space.members.erase name }) other
  have hmove : Move allowed world (world.removeMember ref name) := .removeMember ref name
  refine
    { move := hmove, inSight := h.of_spaces hmove.grows rfl fun other row hrow => ?_
      spares := fun other hother => ?_, defers := fun _ => .inl rfl, grounds := fun hgrounded hrows => ?_ }
  · rw [World.removeMember, hafter] at hrow
    split at hrow
    · next hsame => exact .inl (hsame.1 ▸ (List.mem_filter.mp hrow).1)
    · exact .inl hrow
  · rw [World.removeMember, hafter, if_neg]
    rintro ⟨rfl, -⟩
    exact hother hspace
  · exact Nat.lt_of_lt_of_le (hgrounded hrows) hmove.grows

theorem act_markModule (ref : NamespaceRef) : Act allowed sight world (world.markModule ref) := by
  have hmembers (other : NamespaceRef) :
      ((world.markModule ref).space other).members = (world.space other).members :=
    Store.proj_get_update _ _ _ Namespace.members fun _ => rfl
  have hmove : Move allowed world (world.markModule ref) := .markModule ref
  refine .of_parts hmove ?_ hmembers rfl rfl
  refine h.of_spaces hmove.grows rfl fun other row hrow => ?_
  rw [hmembers] at hrow
  exact .inl hrow

/-! ### Modules -/

/-- A change of modules that gives them no exports but from sight. -/
theorem of_modules {after : World} (hrest : after = { world with modules := after.modules })
    (hexports : ∀ ref, (after.module ref).exports = (world.module ref).exports ∨
      sight.sees world.spaces.size (after.module ref).exports) : after.InSight sight := by
  have hcount : after.spaces.size = world.spaces.size := by rw [hrest]
  have hkept (thing : Holding) (ref : NamespaceRef) (hmem : .space ref ∈ after.holdings thing) :
      .space ref ∈ world.holdings thing ∨ sight.sees after.spaces.size ref := by
    cases thing with
    | module other =>
      obtain ⟨rfl⟩ : Holding.space ref = .space (after.module other).exports :=
        List.mem_singleton.mp hmem
      rcases hexports other with hsame | hnew
      · exact .inl (List.mem_singleton.mpr (congrArg Holding.space hsame))
      · exact .inr (hcount ▸ hnew)
    | _ =>
      rw [hrest] at hmem
      exact .inl hmem
  refine h.of_kept (Nat.le_of_eq hcount.symm) (fun row hrow => ?_) (fun ref => ?_) fun thing _ =>
    hkept thing
  · rw [hrest] at hrow
    exact .inl hrow
  · rw [hrest]
    exact .inl rfl

/-- A new module has exports of its own. -/
theorem act_newModule (id : String) (isEnabled : Bool) :
    Act allowed sight world (world.newModule id isEnabled).2 := by
  have hspace : Act allowed sight world (world.newSpace false).2 := h.act_newSpace false
  have hcount : (world.newSpace false).2.spaces.size = world.spaces.size + 1 := Store.size_add ..
  have hmodule (ref : ModuleRef) : (world.newModule id isEnabled).2.module ref =
      if ref.index = world.modules.size then ⟨id, ⟨world.spaces.size⟩, false, isEnabled⟩
      else world.module ref := Store.get_add _ _ _
  refine .of_parts (.newModule id isEnabled) ?_ (members_newSpace false) rfl rfl
  refine hspace.inSight.of_modules rfl fun ref => ?_
  rw [hmodule, hcount]
  split
  · exact .inr (sight.fresh h.start)
  · exact .inl rfl

omit h in
theorem exports_updateModule (ref other : ModuleRef) {change : Module → Module}
    (hchange : ∀ module, (change module).exports = module.exports) :
    ((world.updateModule ref change).module other).exports = (world.module other).exports :=
  Store.proj_get_update _ _ _ Module.exports hchange

theorem act_enable (ref : ModuleRef) : Act allowed sight world (world.enable ref).2 := by
  refine .of_parts (.enable ref) ?_ (fun _ => ?_) ?_ ?_ <;> unfold World.enable <;> split
  · exact h
  · exact h.of_modules rfl fun _ => .inl (exports_updateModule _ _ fun _ => rfl)
  all_goals rfl

theorem act_setLoaded (ref : ModuleRef) (loaded : Bool) :
    Act allowed sight world (world.setLoaded ref loaded) := by
  refine .of_parts (.setLoaded ref loaded) ?_ (fun _ => rfl) rfl rfl
  exact h.of_modules rfl fun _ => .inl (exports_updateModule _ _ fun _ => rfl)

theorem act_setExports (ref : ModuleRef) {exports : NamespaceRef}
    (hexports : sight.sees world.spaces.size exports) :
    Act allowed sight world (world.setExports ref exports) := by
  refine .of_parts (.setExports ref exports) ?_ (fun _ => rfl) rfl rfl
  refine h.of_modules rfl fun other => ?_
  have hmodule : (world.setExports ref exports).module other =
      if other.index = ref.index ∧ ref.index < world.modules.size then
        { world.module ref with exports } else world.module other :=
    Store.get_update _ _ _ _
  rw [hmodule]
  split
  · exact .inr hexports
  · exact .inl rfl

/-! ### Entries -/

omit h in
/-- What an entry keeps leads to namespaces by its slots. -/
theorem mem_holdings_entry {ref : NamespaceRef} {entry : Entry} :
    .space ref ∈ entry.holdings ↔ .space ref ∈ slotHoldings entry.slots.rows := by
  simp [Entry.holdings, slotHoldings]

/-- A change of entries that makes neither them nor their slots lead to namespaces but in sight. -/
theorem of_entries {after : World} (hrest : after = { world with entries := after.entries })
    (hspaces : ∀ ref, (after.entry ref).space = (world.entry ref).space ∨
      sight.sees world.spaces.size (after.entry ref).space)
    (hslots : ∀ ref, ∀ row ∈ (after.entry ref).slots.rows,
      row ∈ (world.entry ref).slots.rows ∨ sight.Shows world.spaces.size row.2.holdings) :
    after.InSight sight := by
  have hcount : after.spaces.size = world.spaces.size := by rw [hrest]
  have hkept (thing : Holding) (ref : NamespaceRef) (hmem : .space ref ∈ after.holdings thing) :
      .space ref ∈ world.holdings thing ∨ sight.sees after.spaces.size ref := by
    cases thing with
    | entry other =>
      obtain ⟨row, hrow, hmem⟩ := List.mem_flatMap.mp (mem_holdings_entry.mp hmem)
      rcases hslots other row hrow with hold | hnew
      · exact .inl (mem_holdings_entry.mpr (List.mem_flatMap.mpr ⟨row, hold, hmem⟩))
      · exact .inr (hcount ▸ hnew ref hmem)
    | _ =>
      rw [hrest] at hmem
      exact .inl hmem
  refine h.of_kept (Nat.le_of_eq hcount.symm) (fun row hrow => ?_) (fun ref => ?_) fun thing _ =>
    hkept thing
  · rw [hrest] at hrow
    exact .inl hrow
  · rw [hcount]
    exact hspaces ref

theorem act_updateEntry {ref : EntryRef} {change : Entry → Entry}
    (hmove : Move allowed world (world.updateEntry ref change))
    (hspace : ∀ entry, (change entry).space = entry.space)
    (hslots : ∀ entry, ∀ row ∈ (change entry).slots.rows,
      row ∈ entry.slots.rows ∨ sight.Shows world.spaces.size row.2.holdings) :
    Act allowed sight world (world.updateEntry ref change) := by
  refine .of_parts hmove ?_ (fun _ => rfl) rfl rfl
  refine h.of_entries rfl (fun other => ?_) fun other row hrow => ?_
  · exact .inl (Store.proj_get_update _ _ _ Entry.space hspace)
  · rw [world.entry_updateEntry] at hrow
    split at hrow
    · next hsame => exact hsame.1 ▸ hslots _ row hrow
    · exact .inl hrow

theorem act_settleOwner (ref : EntryRef) (module : ModuleRef) :
    Act allowed sight world (world.settleOwner ref module) := by
  have hmove : Move allowed world (world.settleOwner ref module) := .settleOwner ref module
  unfold World.settleOwner at hmove ⊢
  split at hmove
  · exact .of_parts hmove h (fun _ => rfl) rfl rfl
  · exact h.act_updateEntry hmove (fun _ => rfl) fun _ _ => .inl

/-- An entry that is marked as loaded leads where it did. -/
theorem markLoaded (ref : EntryRef) : (world.markLoaded ref).InSight sight := by
  refine h.of_entries rfl (fun other => .inl ?_) fun other row hrow => .inl ?_
  · exact Store.proj_get_update _ _ _ Entry.space fun _ => rfl
  · have hslots : ((world.markLoaded ref).entry other).slots = (world.entry other).slots :=
      Store.proj_get_update _ _ _ Entry.slots fun _ => rfl
    exact hslots ▸ hrow

theorem act_markLoaded (ref : EntryRef) (hallowed : ∃ term, allowed (.markLoaded term)) :
    Act allowed sight world (world.markLoaded ref) :=
  .of_parts (.markLoaded ref hallowed) (h.markLoaded ref) (fun _ => rfl) rfl rfl

theorem act_entryFor {space : NamespaceRef} (hspace : sight.sees world.spaces.size space) :
    Act allowed sight world (world.entryFor space).2 := by
  have hmove : Move allowed world (world.entryFor space).2 := .entryFor space
  unfold World.entryFor at hmove ⊢
  split at hmove
  · exact .of_parts hmove h (fun _ => rfl) rfl rfl
  · have hentry (ref : EntryRef) : (world.newEntry space).2.entry ref =
        if ref.index = world.entries.size then ⟨space, none, false, .empty, []⟩
        else world.entry ref := Store.get_add _ _ _
    have hnew : (world.newEntry space).2.InSight sight := by
      refine h.of_entries rfl (fun ref => ?_) fun ref row hrow => .inl ?_
      · rw [hentry]
        split
        · exact .inr hspace
        · exact .inl rfl
      · rw [hentry] at hrow
        split at hrow
        · exact absurd hrow List.not_mem_nil
        · exact hrow
    have hmembers (ref : NamespaceRef) : (((world.newEntry space).2.updateSpace space fun record =>
        { record with entry := some (world.newEntry space).1 }).space ref).members =
          ((world.newEntry space).2.space ref).members :=
      Store.proj_get_update _ _ _ Namespace.members fun _ => rfl
    refine .of_parts hmove (hnew.of_spaces ?_ rfl fun ref row hrow => .inl ?_) hmembers rfl rfl
    · exact Nat.le_of_eq (Store.size_update ..).symm
    · exact hmembers ref ▸ hrow

theorem act_addProviders (ref : EntryRef) (providers : Table ProviderRef) (isConstant : Bool) :
    Act allowed sight world (world.addProviders ref providers isConstant) := by
  refine h.act_updateEntry (.addProviders ref providers isConstant) (fun _ => rfl) ?_
  intro entry row hrow
  refine (Table.mem_rows_putAll hrow).imp_right fun hnew => ?_
  obtain ⟨provider, -, rfl⟩ := List.mem_map.mp hnew
  simp [Sight.Shows, Slot.holdings]

theorem act_keepValue (ref : EntryRef) (name : String) (provider : ProviderRef) {value : Value}
    (hvalue : sight.Shows world.spaces.size value.holdings) :
    Act allowed sight world (world.keepValue ref name provider value) := by
  refine h.act_updateEntry (.keepValue ref name provider value) (fun entry => ?_) fun entry row hrow => ?_
  · split
    · split <;> rfl
    · rfl
  · split at hrow
    · next slot hslot =>
      split at hrow
      · refine (Table.mem_rows_put hrow).imp_right fun hnew => ?_
        rw [hnew]
        simpa [Sight.Shows, Slot.holdings] using hvalue
      · exact .inl hrow
    · exact .inl hrow

/-! ### Providers -/

/-- A change of providers that gives them no sources but from sight. -/
theorem of_providers {after : World} (hrest : after = { world with
      providers := after.providers, calls := after.calls })
    (hsources : ∀ ref, (after.provider ref).source = (world.provider ref).source ∨
      sight.Shows world.spaces.size (after.provider ref).source.holdings) : after.InSight sight := by
  have hcount : after.spaces.size = world.spaces.size := by rw [hrest]
  have hkept (thing : Holding) (ref : NamespaceRef) (hmem : .space ref ∈ after.holdings thing) :
      .space ref ∈ world.holdings thing ∨ sight.sees after.spaces.size ref := by
    cases thing with
    | provider other =>
      rcases hsources other with hsame | hnew
      · refine .inl ?_
        change _ ∈ (world.provider other).source.holdings
        exact hsame ▸ hmem
      · exact .inr (hcount ▸ hnew ref hmem)
    | _ =>
      rw [hrest] at hmem
      exact .inl hmem
  refine h.of_kept (Nat.le_of_eq hcount.symm) (fun row hrow => ?_) (fun ref => ?_) fun thing _ =>
    hkept thing
  · rw [hrest] at hrow
    exact .inl hrow
  · rw [hrest]
    exact .inl rfl

theorem act_newProvider {source : Source} (hlines : Program.Confined allowed source.lines)
    (hsource : sight.Shows world.spaces.size source.holdings) :
    Act allowed sight world (world.newProvider source).2 := by
  have hprovider (ref : ProviderRef) : (world.newProvider source).2.provider ref =
      if ref.index = world.providers.size then ⟨source, 0⟩ else world.provider ref :=
    Store.get_add _ _ _
  refine .of_parts (.newProvider source hlines) ?_ (fun _ => rfl) rfl rfl
  refine h.of_providers rfl fun ref => ?_
  rw [hprovider]
  split
  · exact .inr hsource
  · exact .inl rfl

theorem act_noteCall (ref : ProviderRef) : Act allowed sight world (world.noteCall ref).2 := by
  refine .of_parts (.noteCall ref) ?_ (fun _ => rfl) rfl rfl
  exact h.of_providers rfl fun other => .inl ((world.asked_noteCall ref).source other)

/-! ### Batches -/

omit h in
/-- What a batch keeps leads to namespaces by its consumers, its namespaces and what it has seen. -/
theorem shows_batch {count : Nat} {batch : Batch} : sight.Shows count batch.holdings ↔
    (∀ row ∈ batch.consumers.rows, sight.Shows count row.2.holdings) ∧
      (∀ space ∈ batch.spaces, sight.sees count space) ∧
        ∀ row ∈ batch.seen, sight.Shows count row.2.holdings := by
  rw [Batch.holdings, shows_append, shows_append, shows_flatMap, shows_spaces, shows_flatMap, and_assoc]

/-- A change of batches that leads to no namespace but in sight. -/
theorem of_batches {after : World} (hrest : after = { world with
      batches := after.batches, calls := after.calls })
    (hbatches : ∀ ref, ¬ sight.hides ref → (after.batch ref).holdings = (world.batch ref).holdings ∨
      sight.Shows world.spaces.size (after.batch ref).holdings) : after.InSight sight := by
  have hcount : after.spaces.size = world.spaces.size := by rw [hrest]
  refine h.of_kept (Nat.le_of_eq hcount.symm) (fun row hrow => ?_) (fun ref => ?_)
    fun thing hthing ref hmem => ?_
  · rw [hrest] at hrow
    exact .inl hrow
  · rw [hrest]
    exact .inl rfl
  · cases thing with
    | batch other =>
      rcases hbatches other (hthing other rfl) with hsame | hnew
      · refine .inl ?_
        change _ ∈ (world.batch other).holdings
        exact hsame ▸ hmem
      · exact .inr (hcount ▸ hnew ref hmem)
    | _ =>
      rw [hrest] at hmem
      exact .inl hmem

/-- A batch may have seen a value in sight, whether the batch hides something or not. -/
theorem handOver (batch : BatchRef) (slot name : String) {value : Value}
    (hvalue : sight.Shows world.spaces.size value.holdings) :
    (world.handOver batch slot name value).InSight sight := by
  refine h.of_batches rfl fun ref href => ?_
  have hbatch : (world.handOver batch slot name value).batch ref = _ :=
    world.batch_updateBatch batch _ ref
  rw [hbatch]
  split
  · next hsame =>
    obtain ⟨rfl, -⟩ := hsame
    obtain ⟨hconsumers, hspaces, hseen⟩ := shows_batch.mp (h.batch href)
    refine .inr (shows_batch.mpr ⟨hconsumers, hspaces, fun row hrow => ?_⟩)
    rcases List.mem_cons.mp hrow with rfl | hrow
    · exact hvalue
    · exact hseen row (List.mem_filter.mp hrow).1
  · exact .inl rfl

theorem act_handOver {batch : BatchRef} {slot name : String} {value : Value}
    (hactive : (world.batch batch).isActive = true)
    (hnew : ∀ last, world.seen? batch slot name = some last → value.same last = false)
    (hvalue : sight.Shows world.spaces.size value.holdings) :
    Act allowed sight world (world.handOver batch slot name value) :=
  .of_parts (.handOver batch slot name value hactive hnew) (h.handOver batch slot name hvalue)
    (fun _ => rfl) rfl rfl

/-- A value in sight that is put into namespaces, whether these are in sight or not. -/
theorem foldl_setMember (spaces : List NamespaceRef) (name : String) {value : Value}
    (hvalue : sight.Shows world.spaces.size value.holdings) :
    (spaces.foldl (fun world space => world.setMember space name value) world).InSight sight := by
  induction spaces generalizing world with
  | nil => exact h
  | cons space rest ih =>
    have hcount := (world.keeps_setMember space name value).spaceCount
    exact ih (h.setMember space name hvalue) (hcount.symm ▸ hvalue)

variable (world) in
omit h in
/-- A value that is put into namespaces goes to no other ones, and nothing else is different. -/
theorem rest_foldl_setMember (spaces : List NamespaceRef) (name : String) (value : Value) :
    let after := spaces.foldl (fun world space => world.setMember space name value) world
    after = { world with spaces := after.spaces } ∧ ∀ ref, ref ∉ spaces →
      (after.space ref).members = (world.space ref).members := by
  induction spaces generalizing world with
  | nil => exact ⟨rfl, fun _ _ => rfl⟩
  | cons space rest ih =>
    rw [List.foldl_cons]
    obtain ⟨hrest, hmembers⟩ := @ih (world.setMember space name value)
    refine ⟨?_, fun ref href => ?_⟩
    · rw [hrest]
      rfl
    · rw [List.mem_cons, not_or] at href
      exact (hmembers ref href.2).trans (members_setMember_of_ne href.1 name value)

/-- What is written through a batch is in sight if the value is. -/
theorem writeThrough (batch : BatchRef) (name : String) {value : Value}
    (hvalue : sight.Shows world.spaces.size value.holdings) :
    (world.writeThrough batch name value).InSight sight := by
  rcases world.writeThrough_cases batch name value with ⟨-, heq⟩ | heq <;> rw [heq]
  · exact h
  · refine (h.foldl_setMember _ name hvalue).of_batches rfl fun ref _ => .inl ?_
    exact Store.proj_get_update _ _ _ Batch.holdings fun _ => rfl

theorem act_writeThrough {batch : BatchRef} {name : String} {value : Value}
    (hactive : (world.batch batch).isActive = true) (hbatch : ¬ sight.hides batch)
    (hvalue : sight.Shows world.spaces.size value.holdings) :
    Act allowed sight world (world.writeThrough batch name value) := by
  have hmove : Move allowed world (world.writeThrough batch name value) :=
    .writeThrough batch name value hactive
  obtain ⟨hrest, hmembers⟩ :=
    rest_foldl_setMember world (world.batch batch).spaces name value
  have himports := congrArg World.imports hrest
  have hnames := congrArg World.names hrest
  have hinSight := h.writeThrough batch name hvalue
  rcases world.writeThrough_cases batch name value with ⟨-, heq⟩ | heq
  · rw [heq] at hmove ⊢
    exact .of_parts hmove h (fun _ => rfl) rfl rfl
  · rw [heq] at hmove hinSight ⊢
    refine
      { move := hmove, inSight := hinSight
        spares := fun ref href => hmembers ref fun hspace => href (h.spaces hbatch ref hspace)
        defers := fun ref => .inl ?_, grounds := fun hgrounded hrows => ?_ }
    · exact congrArg (fun imports => (imports.get ref.index).isDeferred) himports
    · refine Nat.lt_of_lt_of_le (hgrounded fun hnone => hrows ?_) hmove.grows
      rw [← hnone]
      exact congrArg (fun names => names.loaded.rows) hnames

/-- A registration keeps a world in sight if what it leads to is, or if the sight has the new batch hide
it; nothing that hides is replaced. -/
theorem act_addConsumers (entry : EntryRef) (module : ModuleRef) {consumers : Table Consumer}
    (key : Option String) {spaces : List NamespaceRef}
    (hlines : Program.Confined allowed (Consumer.linesOf consumers))
    (hopen : ∀ batch ∈ world.replacedBy entry (world.keyOf module key), ¬ sight.hides batch)
    (hkept : ¬ sight.hides ⟨world.batches.size⟩ →
      (∀ row ∈ consumers.rows, sight.Shows world.spaces.size row.2.holdings) ∧
        ∀ space ∈ spaces, sight.sees world.spaces.size space) :
    Act allowed sight world (world.addConsumers entry module consumers key spaces) := by
  have hrenewed := world.renewed_addConsumers entry module consumers key spaces
  have hmove : Move allowed world (world.addConsumers entry module consumers key spaces) :=
    .addConsumers entry module consumers key spaces hlines
  generalize world.addConsumers entry module consumers key spaces = after at hrenewed hmove ⊢
  have hnames : after.names = world.names := by rw [hrenewed.rest]
  have himports : after.imports = world.imports := by rw [hrenewed.rest]
  refine
    { move := hmove, inSight := ?_, spares := fun ref href => ?_, defers := fun ref => .inl ?_
      grounds := fun hgrounded hrows => ?_ }
  · refine h.of_kept (Nat.le_of_eq hrenewed.spaceCount.symm) (fun row hrow => ?_) (fun ref => ?_)
      fun thing hthing ref hmem => ?_
    · exact .inl (hnames ▸ hrow)
    · rw [hrenewed.entries]
      exact .inl rfl
    · rw [hrenewed.spaceCount]
      cases thing with
      | space other =>
        obtain ⟨row, hrow, hmem⟩ := mem_holdings_space.mp hmem
        rw [hrenewed.rows] at hrow
        exact .inl (mem_holdings_space.mpr ⟨row, (List.mem_filter.mp hrow).1, hmem⟩)
      | entry other =>
        have hmem := mem_holdings_entry.mp hmem
        rw [hrenewed.entries] at hmem
        exact .inl (mem_holdings_entry.mpr hmem)
      | batch other =>
        by_cases hother : other.index = world.batches.size
        · obtain rfl : other = ⟨world.batches.size⟩ := by
            cases other
            exact congrArg BatchRef.mk hother
          obtain ⟨hconsumers, hspaces⟩ := hkept (hthing _ rfl)
          change _ ∈ (after.batch ⟨world.batches.size⟩).holdings at hmem
          rw [hrenewed.added] at hmem
          refine .inr (shows_batch.mpr ⟨hconsumers, hspaces, ?_⟩ ref hmem)
          exact fun _ hrow => absurd hrow List.not_mem_nil
        · change _ ∈ (after.batch other).holdings at hmem
          rw [hrenewed.same other hother] at hmem
          exact .inl hmem
      | _ =>
        rw [hrenewed.rest] at hmem
        exact .inl hmem
  · have hrows := hrenewed.rows ref
    rw [List.filter_eq_self.mpr fun row _ => ?_] at hrows
    · exact congrArg Table.mk hrows
    · -- A batch that is replaced has its namespaces in sight.
      simp only [Bool.not_eq_true', List.any_eq_false, Bool.and_eq_true, decide_eq_true_eq, not_and]
      exact fun batch hbatch hspace => absurd (h.spaces (hopen batch hbatch) ref hspace) href
  · rw [World.dynamicImport, himports, World.dynamicImport]
  · rw [hnames] at hrows
    exact Nat.lt_of_lt_of_le (hgrounded hrows) hmove.grows

end World.InSight

end ModuleLinkage.Ledger
