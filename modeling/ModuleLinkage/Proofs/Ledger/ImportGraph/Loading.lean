import ModuleLinkage.Proofs.Ledger.ImportGraph.Subscribing

/-!
# Running module bodies

The lines of a module body one after the other: imports (`ImportGraph.meets_importLine`), which may
run the bodies of other modules, and writes (`ImportGraph.meets_writeLines`). Each line keeps the
invariant of linking and leaves other running bodies what they rely on.
-/

set_option autoImplicit false

namespace ModuleLinkage.Ledger

namespace ImportGraph

variable {graph : ImportGraph} {run : Runner} {label : String} {allowed : Fault → Prop}
  {world : World} {shape : ModuleShape} {place : Place} {finished : List Import}

/-- The number of modules that the host has not begun to load. -/
def unloaded (graph : ImportGraph) (world : World) : Nat :=
  (graph.ids.toFinset.filter fun id => (world.loaded? id).isNone = true).card

theorem unloaded_le_length (graph : ImportGraph) (world : World) :
    graph.unloaded world ≤ graph.modules.length := by
  calc graph.unloaded world ≤ graph.ids.toFinset.card := Finset.card_filter_le _ _
    _ ≤ graph.ids.length := List.toFinset_card_le _
    _ = graph.modules.length := List.length_map _

/-- Modules that are loaded stay loaded. -/
theorem Grows.loaded?_eq_none {own : String → Prop} {after : World} (hwired : graph.Wired world)
    (hgrows : graph.Grows own world after) {id : String} (hnone : after.loaded? id = none) :
    world.loaded? id = none := by
  cases hloaded : world.loaded? id with
  | none => rfl
  | some module =>
    obtain ⟨-, before, hbefore⟩ := hwired.placed hloaded
    rw [(hgrows.places hbefore).loaded] at hnone
    cases hnone

theorem Grows.unloaded_le {own : String → Prop} {after : World} (hwired : graph.Wired world)
    (hgrows : graph.Grows own world after) : graph.unloaded after ≤ graph.unloaded world := by
  refine Finset.card_le_card fun id hid => ?_
  simp only [Finset.mem_filter, Option.isNone_iff_eq_none] at hid ⊢
  exact ⟨hid.1, hgrows.loaded?_eq_none hwired hid.2⟩

/-- There are fewer modules left to load once one more is loaded. -/
theorem Grows.unloaded_lt {own : String → Prop} {after : World} (hwired : graph.Wired world)
    (hgrows : graph.Grows own world after) {id : String} (hid : id ∈ graph.ids)
    (hnew : world.loaded? id = none) (hplace : after.Places id place) :
    graph.unloaded after < graph.unloaded world := by
  apply Finset.card_lt_card
  rw [Finset.ssubset_iff_of_subset]
  · refine ⟨id, ?_, ?_⟩
    · simp only [Finset.mem_filter, List.mem_toFinset, Option.isNone_iff_eq_none]
      exact ⟨hid, hnew⟩
    · simp only [Finset.mem_filter, hplace.loaded, Option.isNone_some, Bool.false_eq_true,
        and_false, not_false_iff]
  · intro other hother
    simp only [Finset.mem_filter, Option.isNone_iff_eq_none] at hother ⊢
    exact ⟨hother.1, hgrows.loaded?_eq_none hwired hother.2⟩

/-- Loading a module by `run`, while fewer than `bound` modules are not loaded, does what it should. -/
def LoadsMeet (graph : ImportGraph) (run : Runner) (bound : Nat) (allowed : Fault → Prop) : Prop :=
  ∀ ⦃world id⦄, id ∈ graph.ids → graph.Settled world → graph.unloaded world < bound →
    (load run id).Meets world
      (fun space after => graph.Settled after ∧ graph.Grows (fun _ => False) world after ∧
        ∃ place, after.Places id place ∧ space = place.space) allowed

/-! ### Imports -/

/-- Rows that correspond to others by their names have the same names. -/
theorem map_fst_of_forall₂ {α β : Type} {related : String × α → String × β → Prop}
    (hrelated : ∀ {first second}, related first second → second.1 = first.1)
    {first : List (String × α)} {second : List (String × β)}
    (h : List.Forall₂ related first second) : second.map (·.1) = first.map (·.1) := by
  induction h with
  | nil => rfl
  | cons hrow _ ih => rw [List.map_cons, List.map_cons, hrelated hrow, ih]

/-- The consumers that an import registers. -/
theorem meets_newConsumers (feeds : List (String × Feed)) :
    (newConsumers { current := some shape.id }
        (feeds.map fun row => (.fixed row.1, shape.consumerTerm row.2))).Meets world
      (fun rows after => world.Alike after ∧
        List.Forall₂ (fun feed row => row.1 = feed.1 ∧ after.Takes shape feed.2 row.2) feeds rows)
      allowed := by
  induction feeds generalizing world with
  | nil =>
    simp only [List.map_nil, newConsumers, Effect.meets_pure]
    exact ⟨.refl world, .nil⟩
  | cons feed rest ih =>
    obtain ⟨name, feed⟩ := feed
    simp only [List.map_cons, newConsumers, Effect.meets_bind, Effect.meets_pure]
    cases feed with
    | assign target =>
      simp only [ModuleShape.consumerTerm, ConsumerTerm.consumer, findBinding, Effect.meets_bind,
        Effect.meets_modifyGet, Effect.meets_pure]
      have hname := World.get?_bindingNamed world target
      refine ih.weaken fun rows after hafter => ⟨?_, .cons ⟨rfl, ?_⟩ hafter.2⟩
      · exact (World.alike_bindingNamed world target).trans hafter.1
      · exact .assign (hafter.1.bindingNamed hname)
    | callback targets =>
      simp only [ModuleShape.consumerTerm, ConsumerTerm.consumer, Effect.meets_pure]
      refine ih.weaken fun rows after hafter => ⟨hafter.1, .cons ⟨rfl, .callback⟩ hafter.2⟩

/-- What an import subscribes with. -/
structure Registers (world : World) (shape : ModuleShape) (imp : Import)
    (registration : Registration) : Prop where
  key : registration.key = some imp.key.repr
  spaces : registration.spaces = []
  consumers : ∃ table, registration.consumers = some table ∧
    List.Forall₂ (fun feed row => row.1 = feed.1 ∧ world.Takes shape feed.2 row.2) imp.feeds
      table.rows

theorem Registers.mono {first second : World} {imp : Import} {registration : Registration}
    (h : Registers first shape imp registration)
    (hnames : ∀ {name ref}, first.names.bindings.get? name = some ref →
      second.names.bindings.get? name = some ref) : Registers second shape imp registration where
  key := h.key
  spaces := h.spaces
  consumers := by
    obtain ⟨table, hsome, hrows⟩ := h.consumers
    exact ⟨table, hsome, hrows.imp fun _ _ hrow => ⟨hrow.1, hrow.2.mono hnames⟩⟩

theorem meets_subscription (hgraph : graph.WellFormed) (hshape : shape ∈ graph.modules)
    {imp : Import} (himp : imp ∈ shape.imports) :
    ((shape.subscription imp).evaluate { current := some shape.id }).Meets world
      (fun registration after => world.Alike after ∧ Registers after shape imp registration)
      allowed := by
  simp only [ModuleShape.subscription, Subscription.evaluate, Effect.meets_bind, Effect.meets_pure,
    List.mapM_nil]
  refine (meets_newConsumers imp.feeds).weaken fun rows after hafter => ?_
  refine ⟨hafter.1, rfl, rfl, .ofList rows, rfl, ?_⟩
  rw [Table.rows_ofList]
  · exact hafter.2
  · rw [map_fst_of_forall₂ (fun hrow => hrow.1) hafter.2]
    exact hgraph.feedNames shape hshape imp himp

/-- A request for a module of the graph loads it. -/
theorem meets_request (hwired : graph.Wired world)
    (hplace : world.Places shape.id place) {id : String} (hid : id ∈ graph.ids)
    {post : NamespaceRef → World → Prop} :
    (request run place.module id).Meets world post allowed ↔
      (load run id).Meets world post allowed := by
  have hresolve : world.resolve? id = some id := by
    have hcontains : world.host.bodies.contains id = true := by
      obtain ⟨other, hother, hsame⟩ := List.mem_map.mp hid
      rw [hwired.host]
      refine List.any_eq_true.mpr ⟨(other.id, other.body), List.mem_map_of_mem hother, ?_⟩
      exact beq_iff_eq.mpr hsame
    have halias : world.host.aliases.get? id = none := by
      rw [hwired.host]
      rfl
    unfold World.resolve?
    simp only [halias, Option.getD_none, hcontains, Bool.true_or, if_true]
  simp only [request, Effect.meets_bind, Effect.meets_get, hplace.isEnabled, hresolve,
    Bool.not_true, Bool.false_eq_true, if_false]

/-- A module that is linked stays where it is and subscribes as before while nothing that matters to
rounds changes. -/
theorem Running.alike {pending : String → Prop} {after : World} (hgraph : graph.WellFormed)
    (hshape : shape ∈ graph.modules) (h : graph.Running pending shape place finished world)
    (halike : world.Alike after) : graph.Running pending shape place finished after :=
  h.keeps hshape halike.toKeeps (h.sound.alike hgraph halike)

/-- Subscribing with an import to a module that is there. -/
theorem meets_subscribe (hgraph : graph.WellFormed) (hshape : shape ∈ graph.modules)
    (h : graph.Running (fun _ => False) shape place finished world) {imp : Import}
    (himp : imp ∈ shape.imports) (hnot : imp ∉ finished) {source : Place}
    (hsource : world.Places imp.source source) {registration : Registration}
    (hregisters : Registers world shape imp registration) :
    (subscribe place.module source.space registration).Meets world
      (fun _ after => graph.Running (· = imp.source) shape place (imp :: finished) after ∧
        graph.Grows (· = shape.id) world after) allowed := by
  have hentry : (world.space (world.module place.module).exports).entry = some place.entry := by
    rw [h.places.exports, h.places.entryOf]
  have hmodule : (world.space (world.module place.module).exports).isModule = true := by
    rw [h.places.exports, h.places.isModule]
  obtain ⟨-, halike⟩ := World.alike_claimExports hmodule hentry
  obtain ⟨consumers, hsome, hconsumers⟩ := hregisters.consumers
  simp only [subscribe, hsome, hregisters.key, hregisters.spaces, Effect.meets_bind,
    Effect.meets_modifyGet]
  generalize (world.claimExports place.module).2 = claimed at halike
  have hrunning := h.alike hgraph hshape halike
  have hplace := halike.places_iff.mpr hsource
  have hfound : claimed.entryFor source.space = (source.entry, claimed) := by
    unfold World.entryFor
    rw [hplace.entryOf]
  have hid : (claimed.module place.module).id = shape.id := hrunning.places.moduleId
  -- A batch under this key would mean that the import had subscribed.
  have hfresh : ∀ batch ∈ (claimed.entry source.entry).batches,
      (claimed.batch batch).key ≠
        some (World.scopedKey (claimed.module place.module).id imp.key.repr) := by
    intro batch hbatch hkey
    rw [hid] at hkey
    exact hnot ((hrunning.subscribed imp himp).mp ⟨batch, source, hplace, hbatch, hkey⟩)
  simp only [hfound, Effect.meets_modify, World.addConsumers_fresh hfresh, hid]
  generalize hrecord : Batch.mk (some (World.scopedKey shape.id imp.key.repr)) place.module
    consumers [] true [] [] = record
  have hjoined := World.joined_withBatch hrunning.sound.wired hplace
    (show record.seen = [] by rw [← hrecord])
  obtain ⟨hsubscribed, hgrows⟩ := hrunning.subscribe hgraph hshape himp hnot hplace hjoined
    { lt := by rw [hjoined.batchCount]; exact Nat.lt_succ_self _
      key := by rw [hjoined.new, ← hrecord]
      spaces := by rw [hjoined.new, ← hrecord]
      isActive := by rw [hjoined.new, ← hrecord]
      consumers := by
        rw [hjoined.new, ← hrecord]
        refine hconsumers.imp fun feed row hrow => ⟨hrow.1, hrow.2.mono fun hname => ?_⟩
        exact halike.bindingNamed hname }
  exact ⟨hsubscribed, (Grows.of_keeps _ halike.toKeeps).trans hgrows⟩

/-- Loading a module, subscribing to it, and a round over it. -/
theorem meets_importNow {bound loads : Nat} (hgraph : graph.WellFormed)
    (hshape : shape ∈ graph.modules) (hrounds : graph.RoundsMeet run bound allowed)
    (hbound : ∀ id ∈ graph.ids, graph.rank id < bound)
    (hloads : graph.LoadsMeet run loads allowed) (hunloaded : graph.unloaded world < loads)
    (h : graph.Running (fun _ => False) shape place finished world) {imp : Import}
    (himp : imp ∈ shape.imports) (hnot : imp ∉ finished) {registration : Registration}
    (hregisters : Registers world shape imp registration) :
    (importNow run place.module imp.source registration).Meets world
      (fun _ after => graph.Running (fun _ => False) shape place (imp :: finished) after ∧
        graph.Grows (· = shape.id) world after) allowed := by
  obtain ⟨exporter, hexporter, hid⟩ := hgraph.exists_source hshape himp
  have hsourceId : imp.source ∈ graph.ids := hgraph.source shape hshape imp himp
  simp only [importNow, Effect.meets_bind, Effect.meets_holding]
  -- While the module is loaded, the consumers are held on to.
  have hheld := World.alike_held world (registration.holdings ++ world.held)
  generalize ({ world with held := _ } : World) = start at hheld ⊢
  have hstart := h.alike hgraph hshape hheld
  have hgrowsStart : graph.Grows (· = shape.id) world start := .of_keeps _ hheld.toKeeps
  have hfewer := Nat.lt_of_le_of_lt (hgrowsStart.unloaded_le h.sound.wired) hunloaded
  rw [meets_request hstart.sound.wired hstart.places hsourceId]
  refine (hloads hsourceId hstart.sound hfewer).weaken ?_
  rintro _ loaded ⟨hsettled, hgrows, source, hsource, rfl⟩
  have hreleased := World.alike_held loaded world.held
  have hrunning := (hstart.grows hshape hgrows not_false hsettled).alike hgraph hshape hreleased
  have hgrowsLoaded : graph.Grows (· = shape.id) world { loaded with held := world.held } :=
    hgrowsStart.trans ((hgrows.mono fun _ h => h.elim).trans (.of_keeps _ hreleased.toKeeps))
  -- The imported module is subscribed to, and pending until the round.
  refine (meets_subscribe hgraph hshape hrunning himp hnot (hreleased.places_iff.mpr hsource)
    (hregisters.mono hgrowsLoaded.named)).weaken ?_
  rintro _ subscribed ⟨hsubscribed, hgrowsSubscribed⟩
  have hplace : subscribed.Places exporter.id source :=
    hid ▸ hgrowsSubscribed.places (hreleased.places_iff.mpr hsource)
  have hentry : (subscribed.space source.space).entry = some source.entry := hplace.entryOf
  refine meets_propagateFrom hentry fun begun hbegun => ?_
  refine (hrounds (fun _ _ => False) hexporter (hbound _ (mem_ids hexporter))
    (hsubscribed.sound.wired.keeps hbegun.toKeeps) (hbegun.places_iff.mpr hplace)).weaken ?_
  intro _ after hafter last hlast
  have hrounded := (hafter.alike_left hbegun).alike_right hlast
  rw [← hid] at hsubscribed
  refine ⟨hsubscribed.keeps hshape hrounded.drift.toKeeps
    (hsubscribed.sound.settle hgraph hexporter hrounded), ?_⟩
  exact hgrowsLoaded.trans (hgrowsSubscribed.trans (.of_keeps _ hrounded.drift.toKeeps))

/-- An import that has not subscribed does so, loads the imported module if need be, and then has the
current values. -/
theorem meets_importLine {bound loads : Nat} (hgraph : graph.WellFormed)
    (hshape : shape ∈ graph.modules) (hrounds : graph.RoundsMeet run bound allowed)
    (hbound : ∀ id ∈ graph.ids, graph.rank id < bound)
    (hloads : graph.LoadsMeet run loads allowed) (hunloaded : graph.unloaded world < loads)
    (h : graph.Running (fun _ => False) shape place finished world) {imp : Import}
    (himp : imp ∈ shape.imports) (hnot : imp ∉ finished) :
    (perform run { current := some shape.id } (shape.importLine imp).command).Meets world
      (fun _ after => graph.Running (fun _ => False) shape place (imp :: finished) after ∧
        graph.Grows (· = shape.id) world after) allowed := by
  have hname : ((none : Option String) <|> Scope.current { current := some shape.id }) =
      some shape.id := rfl
  simp only [ModuleShape.importLine, Command.command_line, perform]
  rw [meets_withModule hname h.places.named, Effect.meets_bind]
  have hheld := World.alike_held world ([.module place.module] ++ world.held)
  refine (meets_subscription hgraph hshape himp).weaken ?_
  rintro registration named ⟨hnamed, hregisters⟩
  rw [meets_silently]
  have hrunning := h.alike hgraph hshape (hheld.trans hnamed)
  have hgrows : graph.Grows (· = shape.id) world named :=
    .of_keeps _ (hheld.trans hnamed).toKeeps
  have hfewer := Nat.lt_of_le_of_lt (hgrows.unloaded_le h.sound.wired) hunloaded
  refine (meets_importNow hgraph hshape hrounds hbound hloads hfewer hrunning himp hnot
    hregisters).weaken fun _ after hafter => ?_
  have hlast := World.alike_held after world.held
  exact ⟨hafter.1.alike hgraph hshape hlast,
    hgrows.trans (hafter.2.trans (.of_keeps _ hlast.toKeeps))⟩

/-- The imports of a body one after the other. -/
theorem meets_importLines {bound loads : Nat} (hgraph : graph.WellFormed)
    (hshape : shape ∈ graph.modules) (hrounds : graph.RoundsMeet run bound allowed)
    (hbound : ∀ id ∈ graph.ids, graph.rank id < bound)
    (hloads : graph.LoadsMeet run loads allowed) {left : List Import}
    (hleft : ∀ imp ∈ left, imp ∈ shape.imports) (hnodup : left.Nodup)
    (hnot : ∀ imp ∈ left, imp ∉ finished) (hunloaded : graph.unloaded world < loads)
    (h : graph.Running (fun _ => False) shape place finished world) :
    (runLines run { current := some shape.id } label (left.map shape.importLine)).Meets world
      (fun _ after => graph.Running (fun _ => False) shape place (left.reverse ++ finished) after ∧
        graph.Grows (· = shape.id) world after) allowed := by
  induction left generalizing world finished with
  | nil =>
    rw [List.map_nil, meets_runLines_nil]
    exact ⟨h, .of_keeps _ (.refl world)⟩
  | cons imp rest ih =>
    rw [List.nodup_cons] at hnodup
    have hline : (shape.importLine imp).goesOn = false := rfl
    rw [List.map_cons, meets_runLines_cons hline]
    refine (meets_importLine hgraph hshape hrounds hbound hloads hunloaded h (hleft imp (by simp))
      (hnot imp (by simp))).weaken fun answer imported himported => ?_
    have hevent := World.alike_addEvent imported
      (.ran label (shape.importLine imp).name (.ok answer))
    have hgrows := himported.2.trans (.of_keeps _ hevent.toKeeps)
    have hrest := fun other (hother : other ∈ rest) => List.mem_cons_of_mem imp hother
    refine (ih (fun other hother => hleft other (hrest other hother)) hnodup.2 ?_
      (Nat.lt_of_le_of_lt (hgrows.unloaded_le h.sound.wired) hunloaded)
      (himported.1.alike hgraph hshape hevent)).weaken fun _ after hafter => ?_
    · intro other hother hmem
      rcases List.mem_cons.mp hmem with rfl | hmem
      · exact hnodup.1 hother
      · exact hnot other (hrest other hother) hmem
    · rw [List.reverse_cons, List.append_assoc]
      exact ⟨hafter.1, hgrows.trans hafter.2⟩

/-! ### Writes -/

/-- A body that is running may write to its own variables. -/
theorem Running.write (hshape : shape ∈ graph.modules) (hgraph : graph.WellFormed)
    (h : graph.Running (fun _ => False) shape place finished world) {write : Write}
    (hwrite : write ∈ shape.writes) {ref : BindingRef}
    (hname : world.names.bindings.get? write.target = some ref) (value : Value) :
    graph.Running (fun _ => False) shape place finished (world.setBinding ref value) := by
  have hkeeps := world.keeps_setBinding ref value
  have hset := World.content_setBinding h.sound.wired.namesValid hname value
  obtain ⟨hlocal, howner⟩ := hgraph.writesOwn shape hshape write hwrite
  have hfed {shape' : ModuleShape} {imp : Import} {name target : String}
      (hfeeds : graph.Feeds shape' imp name target) :
      (world.setBinding ref value).content target = world.content target := by
    rw [hset, if_neg]
    rintro rfl
    exact hlocal shape' imp name hfeeds
  refine h.keeps hshape hkeeps
    { wired := h.sound.wired.keeps hkeeps
      fed := fun hfeeds hsubscribed => ?_
      unfed := fun hfeeds hnone => ?_
      unset := fun hother hexport hcopy hnone => ?_
      imported := fun hother hplace hloaded imp himp => ?_
      current := ?_ }
  · exact (hfed hfeeds).trans (h.sound.fed hfeeds (hkeeps.subscribed_iff.mp hsubscribed))
  · rw [hfed hfeeds]
    exact h.sound.unfed hfeeds fun batch hsubscribed =>
      hnone batch (hkeeps.subscribed_iff.mpr hsubscribed)
  · rw [hset] at hnone
    split at hnone
    · cases hnone
    · exact h.sound.unset hother hexport (hkeeps.copyOf_iff.mp hcopy) hnone
  · obtain ⟨batch, hbatch⟩ :=
      h.sound.imported hother (hkeeps.places_iff.mp hplace) hloaded imp himp
    exact ⟨batch, hkeeps.subscribed_iff.mpr hbatch⟩
  · intro other otherPlace hother hplace hloaded _ name target copy hexport hcopy
    have hplace := hkeeps.places_iff.mp hplace
    -- A loaded module is another one, and does not export what is written to.
    have hne : target ≠ write.target := by
      rintro rfl
      obtain rfl := howner other hother (exportsTarget_of_mem hexport)
      obtain rfl := h.places.unique hplace
      have hloaded' : (world.module place.module).isLoaded = true := hloaded
      rw [h.isLoaded] at hloaded'
      cases hloaded'
    have hcurrent := h.sound.current hother hplace hloaded not_false hexport
      (hkeeps.copyOf_iff.mp hcopy)
    unfold World.IsCurrent at hcurrent ⊢
    rw [hset, if_neg hne, ← hcurrent]
    rfl

/-- A write, shown or not. -/
theorem meets_writeLines {bound : Nat} (hgraph : graph.WellFormed)
    (hshape : shape ∈ graph.modules) (hrounds : graph.RoundsMeet run bound allowed)
    (hbound : ∀ id ∈ graph.ids, graph.rank id < bound)
    (h : graph.Running (fun _ => False) shape place finished world) {write : Write}
    (hwrite : write ∈ shape.writes)
    (hvalue : ∀ start, (write.value.evaluate { current := some shape.id }).Meets start
      (fun _ after => start.Alike after) allowed) :
    (runLines run { current := some shape.id } label write.lines).Meets world
      (fun _ after => graph.Running (fun _ => False) shape place finished after ∧
        graph.Grows (· = shape.id) world after) allowed := by
  rw [Write.lines, meets_runLines_cons (Command.goesOn_line _), Command.command_line]
  refine meets_perform_setBinding (fun _ => True)
    (fun start _ => (hvalue start).weaken fun _ _ halike => ⟨halike, trivial⟩) ?_
  intro middle ref value hmiddle hname _
  have hwritten := (h.alike hgraph hshape hmiddle).write hshape hgraph hwrite hname value
  have hevent := World.alike_addEvent (middle.setBinding ref value)
    (.ran label (Command.setBinding write.target write.value).line.name (.ok .done))
  have hrunning := hwritten.alike hgraph hshape hevent
  have hkeeps := hmiddle.toKeeps.trans
    ((middle.keeps_setBinding ref value).trans hevent.toKeeps)
  by_cases hshown : write.isShown = true
  · have hterm (start : World) :
        ((ValueTerm.binding write.target).evaluate { current := some shape.id }).Meets start
          (fun _ after => start.Alike after) allowed := by
      simp only [ValueTerm.evaluate, findBinding, Effect.meets_bind, Effect.meets_modifyGet,
        Effect.meets_get, Effect.meets_pure]
      exact World.alike_bindingNamed start write.target
    rw [if_pos hshown, meets_runLines_cons (Command.goesOn_line _)]
    refine (hrounds.meets_perform (fun _ _ => False) hrunning.sound.wired hshape
      (hbound _ (mem_ids hshape)) hrunning.places rfl
      fun start _ => hterm start).weaken fun answer after hafter => ?_
    rw [meets_runLines_nil]
    have hrounded := hafter.alike_right (World.alike_addEvent after
      (.ran label (Command.propagate none (.binding write.target)).line.name (.ok answer)))
    exact ⟨hrunning.keeps hshape hrounded.drift.toKeeps
        (hrunning.sound.round_of_settled hgraph hshape hrounded),
      .of_keeps _ (hkeeps.trans hrounded.drift.toKeeps)⟩
  · rw [if_neg hshown, meets_runLines_nil]
    exact ⟨hrunning, .of_keeps _ hkeeps⟩

/-- The writes of a body one after the other. -/
theorem meets_flatMap_writeLines {bound : Nat} (hgraph : graph.WellFormed)
    (hshape : shape ∈ graph.modules) (hrounds : graph.RoundsMeet run bound allowed)
    (hbound : ∀ id ∈ graph.ids, graph.rank id < bound) {writes : List Write}
    (hwrites : ∀ write ∈ writes, write ∈ shape.writes)
    (hvalues : ∀ write ∈ shape.writes, ∀ start,
      (write.value.evaluate { current := some shape.id }).Meets start
        (fun _ after => start.Alike after) allowed)
    (h : graph.Running (fun _ => False) shape place finished world) :
    (runLines run { current := some shape.id } label (writes.flatMap Write.lines)).Meets world
      (fun _ after => graph.Running (fun _ => False) shape place finished after ∧
        graph.Grows (· = shape.id) world after) allowed := by
  induction writes generalizing world with
  | nil =>
    rw [List.flatMap_nil, meets_runLines_nil]
    exact ⟨h, .of_keeps _ (.refl world)⟩
  | cons write rest ih =>
    have hlines : ∀ line ∈ write.lines, line.goesOn = false := by
      unfold Write.lines
      split <;> simp
    rw [List.flatMap_cons, meets_runLines_append hlines]
    have hwrite := hwrites write (by simp)
    refine (meets_writeLines hgraph hshape hrounds hbound h hwrite
      (hvalues write hwrite)).weaken fun _ middle hmiddle => ?_
    refine (ih (fun other hother => hwrites other (by simp [hother]))
      hmiddle.1).weaken fun _ after hafter => ?_
    exact ⟨hafter.1, hmiddle.2.trans hafter.2⟩

end ImportGraph

end ModuleLinkage.Ledger
