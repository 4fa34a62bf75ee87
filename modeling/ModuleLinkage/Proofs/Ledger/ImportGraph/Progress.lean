import ModuleLinkage.Proofs.Ledger.ImportGraph.Rounds

/-!
# What holds between the lines of module bodies

`ImportGraph.Sound` is the invariant of linking. Locals hold what their batches have seen last, and
nothing before their import has subscribed; copies have nothing while the exported variable holds
nothing; and of a module whose body has run, all imports have subscribed and all copies are current.
Only modules that are `pending` may have copies that are behind: those over which a round is about to
run.

`ImportGraph.Running` adds how far the body of one module has come, and `ImportGraph.Grows` says what
other bodies that run meanwhile leave to it.
-/

set_option autoImplicit false

namespace ModuleLinkage.Ledger

namespace ImportGraph

/-- The invariant of linking, with some modules over which a round is still to run. -/
structure Sound (graph : ImportGraph) (pending : String → Prop) (world : World) : Prop where
  wired : graph.Wired world
  fed : ∀ {shape imp name target batch}, graph.Feeds shape imp name target →
    world.Subscribed shape imp batch → world.IsFed batch name target
  unfed : ∀ {shape imp name target}, graph.Feeds shape imp name target →
    (∀ batch, ¬ world.Subscribed shape imp batch) → world.content target = none
  unset : ∀ {shape name target copy}, shape ∈ graph.modules → (name, target) ∈ shape.exports →
    world.CopyOf shape.id name copy → world.IsUnset copy name target
  imported : ∀ {shape place}, shape ∈ graph.modules → world.Places shape.id place →
    (world.module place.module).isLoaded = true →
      ∀ imp ∈ shape.imports, ∃ batch, world.Subscribed shape imp batch
  current : ∀ {shape place}, shape ∈ graph.modules → world.Places shape.id place →
    (world.module place.module).isLoaded = true → ¬ pending shape.id →
      ∀ {name target copy}, (name, target) ∈ shape.exports → world.CopyOf shape.id name copy →
        world.IsCurrent copy name target

/-- No module is pending. -/
abbrev Settled (graph : ImportGraph) (world : World) : Prop :=
  graph.Sound (fun _ => False) world

/-- What is left as it is while the bodies of other modules run. The modules in `own` are those that
run themselves. -/
structure Grows (graph : ImportGraph) (own : String → Prop) (before after : World) : Prop where
  named : ∀ {name ref}, before.names.bindings.get? name = some ref →
    after.names.bindings.get? name = some ref
  places : ∀ {id place}, before.Places id place → after.Places id place
  isLoaded : ∀ {id place}, before.Places id place → ¬ own id →
    (after.module place.module).isLoaded = (before.module place.module).isLoaded
  kept : ∀ {shape imp batch}, before.Subscribed shape imp batch → after.Subscribed shape imp batch
  subscribed : ∀ {shape place}, shape ∈ graph.modules → before.Places shape.id place →
    ¬ own shape.id → ∀ {imp batch}, imp ∈ shape.imports → after.Subscribed shape imp batch →
      before.Subscribed shape imp batch
  finished : ∀ {id place}, after.Places id place → ¬ own id →
    before.Places id place ∨ (after.module place.module).isLoaded = true

/-- The body of a module is running, and the imports in `finished` have subscribed. -/
structure Running (graph : ImportGraph) (pending : String → Prop) (shape : ModuleShape)
    (place : Place) (finished : List Import) (world : World) : Prop where
  sound : graph.Sound pending world
  places : world.Places shape.id place
  isLoaded : (world.module place.module).isLoaded = false
  subscribed : ∀ imp ∈ shape.imports,
    (∃ batch, world.Subscribed shape imp batch) ↔ imp ∈ finished

variable {graph : ImportGraph} {pending own : String → Prop} {first second third : World}

namespace Grows

/-- Propagation leaves everything to running bodies. -/
theorem of_keeps (own : String → Prop) (h : first.Keeps second) : graph.Grows own first second where
  named := h.bindingNamed
  places := h.places_iff.mpr
  isLoaded _ _ := by rw [h.module]
  kept := h.subscribed_iff.mpr
  subscribed _ _ _ _ _ _ := h.subscribed_iff.mp
  finished hplace _ := .inl (h.places_iff.mp hplace)

theorem trans (h : graph.Grows own first second) (h' : graph.Grows own second third) :
    graph.Grows own first third where
  named hname := h'.named (h.named hname)
  places hplace := h'.places (h.places hplace)
  isLoaded hplace hown := (h'.isLoaded (h.places hplace) hown).trans (h.isLoaded hplace hown)
  kept hsubscribed := h'.kept (h.kept hsubscribed)
  subscribed hshape hplace hown _ _ himp hsubscribed :=
    h.subscribed hshape hplace hown himp
      (h'.subscribed hshape (h.places hplace) hown himp hsubscribed)
  finished hplace hown := by
    rcases h'.finished hplace hown with hbefore | hloaded
    · rcases h.finished hbefore hown with hfirst | hloaded
      · exact .inl hfirst
      · exact .inr ((h'.isLoaded hbefore hown).trans hloaded)
    · exact .inr hloaded

/-- What is left to more modules is left to fewer. -/
theorem mono {own' : String → Prop} (h : graph.Grows own first second)
    (hown : ∀ id, own id → own' id) : graph.Grows own' first second where
  named := h.named
  places := h.places
  isLoaded hplace hnot := h.isLoaded hplace fun h => hnot (hown _ h)
  kept := h.kept
  subscribed hshape hplace hnot := h.subscribed hshape hplace fun h => hnot (hown _ h)
  finished hplace hnot := h.finished hplace fun h => hnot (hown _ h)

/-- A module that was not there in the beginning and is loaded in the end counts as any other. -/
theorem close {id : String} {place : Place} (h : graph.Grows (· = id) first second)
    (hfirst : ∀ place, ¬ first.Places id place) (hplace : second.Places id place)
    (hloaded : (second.module place.module).isLoaded = true) :
    graph.Grows (fun _ => False) first second where
  named := h.named
  places := h.places
  isLoaded hother _ := h.isLoaded hother fun heq => hfirst _ (heq ▸ hother)
  kept := h.kept
  subscribed hshape hother _ := h.subscribed hshape hother fun heq => hfirst _ (heq ▸ hother)
  finished {other otherPlace} hother _ := by
    by_cases hsame : other = id
    · subst hsame
      obtain rfl := hplace.unique hother
      exact .inr hloaded
    · exact h.finished hother hsame

end Grows

namespace Sound

/-- What rounds leave in order keeps the invariant. -/
theorem drift {bound : Nat} (hgraph : graph.WellFormed) (h : graph.Sound pending first)
    (hdrift : graph.Drift bound (fun _ _ => False) first second) : graph.Sound pending second where
  wired := h.wired.keeps hdrift.toKeeps
  fed hfeeds hsubscribed := by
    have hbefore := hdrift.subscribed_iff.mp hsubscribed
    exact hdrift.fed hfeeds hbefore id (h.fed hfeeds hbefore)
  unfed {shape imp name target} hfeeds hnone := by
    have hbefore (batch : BatchRef) : ¬ first.Subscribed shape imp batch :=
      fun hsubscribed => hnone batch (hdrift.subscribed_iff.mpr hsubscribed)
    rw [hdrift.content, h.unfed hfeeds hbefore]
    -- No other import feeds the local, so that no round reaches it.
    intro shape' imp' name' batch hfeeds' hsubscribed
    obtain ⟨rfl, rfl, rfl⟩ := hgraph.fedOnce hfeeds' hfeeds
    exact absurd hsubscribed (hbefore batch)
  unset hshape hexport hcopy :=
    hdrift.unset hshape hexport (hdrift.copyOf_iff.mp hcopy)
      (h.unset hshape hexport (hdrift.copyOf_iff.mp hcopy))
  imported hshape hplace hloaded imp himp := by
    rw [hdrift.module] at hloaded
    obtain ⟨batch, hbatch⟩ := h.imported hshape (hdrift.places_iff.mp hplace) hloaded imp himp
    exact ⟨batch, hdrift.subscribed_iff.mpr hbatch⟩
  current hshape hplace hloaded hpending _ _ _ hexport hcopy := by
    rw [hdrift.module] at hloaded
    have hbefore := hdrift.copyOf_iff.mp hcopy
    exact hdrift.current hshape hexport hbefore
      (h.current hshape (hdrift.places_iff.mp hplace) hloaded hpending hexport hbefore)

/-- What does not matter to rounds does not matter to the invariant. -/
theorem alike (hgraph : graph.WellFormed) (h : graph.Sound pending first)
    (halike : first.Alike second) : graph.Sound pending second := by
  have hdrift : graph.Drift 0 (fun _ _ => False) first second := .of_alike halike
  exact h.drift hgraph hdrift

/-- After a round over a module, this one is no longer pending. -/
theorem round (hgraph : graph.WellFormed) (h : graph.Sound pending first) {shape : ModuleShape}
    (hshape : shape ∈ graph.modules)
    (hround : graph.Rounded shape (fun _ _ => False) first second) :
    graph.Sound (fun id => pending id ∧ id ≠ shape.id) second := by
  have hdrifted := h.drift hgraph hround.drift
  refine
    { wired := hdrifted.wired
      fed := hdrifted.fed
      unfed := hdrifted.unfed
      unset := hdrifted.unset
      imported := hdrifted.imported
      current := ?_ }
  intro other place hother hplace hloaded hpending name target copy hexport hcopy
  by_cases hsame : other.id = shape.id
  · obtain rfl := hgraph.eq_of_id hother hshape hsame
    have hbefore := hround.drift.copyOf_iff.mp hcopy
    exact hround.shown hexport hbefore (h.unset hshape hexport hbefore)
  · exact hdrifted.current hother hplace hloaded (fun h => hpending ⟨h, hsame⟩) hexport hcopy

/-- A round over the only pending module leaves none. -/
theorem settle (hgraph : graph.WellFormed) {shape : ModuleShape} (hshape : shape ∈ graph.modules)
    (h : graph.Sound (· = shape.id) first)
    (hround : graph.Rounded shape (fun _ _ => False) first second) : graph.Settled second := by
  have hrounded := h.round hgraph hshape hround
  exact
    { hrounded with
      current := fun hother hplace hloaded _ =>
        hrounded.current hother hplace hloaded fun hpending => hpending.2 hpending.1 }

/-- Where no module is pending, a round over any module leaves none pending. -/
theorem round_of_settled (hgraph : graph.WellFormed) {shape : ModuleShape}
    (hshape : shape ∈ graph.modules) (h : graph.Settled first)
    (hround : graph.Rounded shape (fun _ _ => False) first second) : graph.Settled second := by
  have hrounded := h.round hgraph hshape hround
  exact
    { hrounded with
      current := fun hother hplace hloaded _ =>
        hrounded.current hother hplace hloaded fun hpending => hpending.1 }

end Sound

namespace Running

variable {shape : ModuleShape} {place : Place} {finished : List Import}

/-- A running body goes on where other bodies have left it. -/
theorem grows (hshape : shape ∈ graph.modules)
    (h : graph.Running pending shape place finished first)
    (hgrows : graph.Grows own first second) (hown : ¬ own shape.id) {pending' : String → Prop}
    (hsound : graph.Sound pending' second) :
    graph.Running pending' shape place finished second where
  sound := hsound
  places := hgrows.places h.places
  isLoaded := (hgrows.isLoaded h.places hown).trans h.isLoaded
  subscribed imp himp := by
    rw [← h.subscribed imp himp]
    constructor
    · rintro ⟨batch, hbatch⟩
      exact ⟨batch, hgrows.subscribed hshape h.places hown himp hbatch⟩
    · rintro ⟨batch, hbatch⟩
      exact ⟨batch, hgrows.kept hbatch⟩

/-- In which order imports have subscribed does not matter. -/
theorem congr {finished' : List Import}
    (h : graph.Running pending shape place finished first)
    (hsame : ∀ imp ∈ shape.imports, imp ∈ finished ↔ imp ∈ finished') :
    graph.Running pending shape place finished' first where
  sound := h.sound
  places := h.places
  isLoaded := h.isLoaded
  subscribed imp himp := (h.subscribed imp himp).trans (hsame imp himp)

/-- A running body goes on after a change that propagation may make. -/
theorem keeps (hshape : shape ∈ graph.modules)
    (h : graph.Running pending shape place finished first) (hkeeps : first.Keeps second)
    {pending' : String → Prop} (hsound : graph.Sound pending' second) :
    graph.Running pending' shape place finished second :=
  h.grows hshape (.of_keeps (fun _ => False) hkeeps) id hsound

end Running

/-! ### The end of a body -/

section

variable {world : World} {shape : ModuleShape} {place : Place}

theorem module_setLoaded (world : World) (ref : ModuleRef) (other : ModuleRef) :
    (world.setLoaded ref true).module other =
      if other = ref ∧ ref.index < world.modules.size then
        { world.module ref with isLoaded := true }
      else world.module other := by
  change (world.modules.update _ _).get _ = _
  rw [Store.get_update]
  cases other
  cases ref
  simp only [ModuleRef.mk.injEq]
  rfl

theorem places_setLoaded {ref : ModuleRef} {id : String} {other : Place} :
    (world.setLoaded ref true).Places id other ↔ world.Places id other := by
  have hmodule {β : Type} (proj : Module → β)
      (hproj : ∀ module : Module, proj { module with isLoaded := true } = proj module) :
      proj ((world.setLoaded ref true).module other.module) = proj (world.module other.module) :=
    Store.proj_get_update _ _ _ proj hproj
  have hid := hmodule Module.id fun _ => rfl
  have henabled := hmodule Module.isEnabled fun _ => rfl
  have hexports := hmodule Module.exports fun _ => rfl
  have hsize : (world.setLoaded ref true).modules.size = world.modules.size :=
    Store.size_update ..
  constructor <;> intro h
  · exact
      { loaded := h.loaded, named := h.named, moduleId := hid ▸ h.moduleId
        isEnabled := henabled ▸ h.isEnabled, exports := hexports ▸ h.exports
        isModule := h.isModule, entryOf := h.entryOf, spaceOf := h.spaceOf
        moduleLt := hsize ▸ h.moduleLt, spaceLt := h.spaceLt, entryLt := h.entryLt }
  · exact
      { loaded := h.loaded, named := h.named, moduleId := hid.trans h.moduleId
        isEnabled := henabled.trans h.isEnabled, exports := hexports.trans h.exports
        isModule := h.isModule, entryOf := h.entryOf, spaceOf := h.spaceOf
        moduleLt := hsize ▸ h.moduleLt, spaceLt := h.spaceLt, entryLt := h.entryLt }

theorem subscribed_setLoaded {ref : ModuleRef} {imp : Import} {batch : BatchRef} :
    (world.setLoaded ref true).Subscribed shape imp batch ↔ world.Subscribed shape imp batch := by
  unfold World.Subscribed
  simp only [places_setLoaded]
  rfl

theorem copyOf_setLoaded {ref : ModuleRef} {id name : String} {copy : Copy} :
    (world.setLoaded ref true).CopyOf id name copy ↔ world.CopyOf id name copy := by
  unfold World.CopyOf
  simp only [places_setLoaded]
  rfl

theorem Wired.setLoaded (h : graph.Wired world) (ref : ModuleRef) :
    graph.Wired (world.setLoaded ref true) where
  host := h.host
  namesValid := h.namesValid
  placed hloaded := by
    obtain ⟨hid, other, hplace⟩ := h.placed hloaded
    exact ⟨hid, other, places_setLoaded.mpr hplace⟩
  apart hplace hplace' := h.apart (places_setLoaded.mp hplace) (places_setLoaded.mp hplace')
  provides hshape hplace :=
    (h.provides hshape (places_setLoaded.mp hplace)).imp fun _ _ hrow =>
      ⟨hrow.name, hrow.isConstant, hrow.providerLt, hrow.binding⟩
  registered hplace hbatch := by
    obtain ⟨other, hother, imp, himp, hsource, ⟨otherPlace, hplaced⟩, hregistered⟩ :=
      h.registered (places_setLoaded.mp hplace) hbatch
    exact ⟨other, hother, imp, himp, hsource, ⟨otherPlace, places_setLoaded.mpr hplaced⟩,
      hregistered.mono id (Nat.le_refl _) rfl⟩
  once hplace := h.once (places_setLoaded.mp hplace)

/-- A body that has run to its end leaves its module pending. -/
theorem Running.setLoaded (hgraph : graph.WellFormed) (hshape : shape ∈ graph.modules)
    (h : graph.Running (fun _ => False) shape place shape.imports world) :
    graph.Sound (· = shape.id) (world.setLoaded place.module true) ∧
      graph.Grows (· = shape.id) world (world.setLoaded place.module true) := by
  -- Other modules are recorded under other references.
  have hmodule {id : String} {other : Place} (hother : world.Places id other)
      (hne : id ≠ shape.id) :
      (world.setLoaded place.module true).module other.module = world.module other.module := by
    rw [module_setLoaded, if_neg]
    rintro ⟨hsame, -⟩
    have hid := hother.moduleId
    rw [hsame, h.places.moduleId] at hid
    exact hne hid.symm
  refine ⟨?_, ?_⟩
  · refine
      { wired := h.sound.wired.setLoaded place.module
        fed := fun hfeeds hsubscribed => h.sound.fed hfeeds (subscribed_setLoaded.mp hsubscribed)
        unfed := fun hfeeds hnone => h.sound.unfed hfeeds fun batch hsubscribed =>
          hnone batch (subscribed_setLoaded.mpr hsubscribed)
        unset := fun hother hexport hcopy =>
          h.sound.unset hother hexport (copyOf_setLoaded.mp hcopy)
        imported := ?_, current := ?_ }
    · intro other otherPlace hother hplace hloaded imp himp
      have hplace := places_setLoaded.mp hplace
      by_cases hsame : other.id = shape.id
      · obtain rfl := hgraph.eq_of_id hother hshape hsame
        obtain ⟨batch, hbatch⟩ := (h.subscribed imp himp).mpr himp
        exact ⟨batch, subscribed_setLoaded.mpr hbatch⟩
      · rw [hmodule hplace hsame] at hloaded
        obtain ⟨batch, hbatch⟩ := h.sound.imported hother hplace hloaded imp himp
        exact ⟨batch, subscribed_setLoaded.mpr hbatch⟩
    · intro other otherPlace hother hplace hloaded hpending name target copy hexport hcopy
      have hplace := places_setLoaded.mp hplace
      rw [hmodule hplace hpending] at hloaded
      exact h.sound.current hother hplace hloaded id hexport (copyOf_setLoaded.mp hcopy)
  · exact
      { named := fun hname => hname
        places := places_setLoaded.mpr
        isLoaded := fun hplace hown => by rw [hmodule hplace hown]
        kept := subscribed_setLoaded.mpr
        subscribed := fun _ _ _ _ _ _ hsubscribed => subscribed_setLoaded.mp hsubscribed
        finished := fun hplace _ => .inl (places_setLoaded.mp hplace) }

end

end ImportGraph

end ModuleLinkage.Ledger
