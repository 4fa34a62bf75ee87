import ModuleLinkage.Proofs.Ledger.ImportGraph.Loading

/-!
# Import graphs settle

Loading any module of a well-formed import graph, cyclic or not, comes to an end in which every
module that was loaded on the way is done and every local of it holds what the variable behind the
imported name holds (`ImportGraph.load_settles`). The only thing that can go wrong is that a body
writes a value whose term names something that does not exist; where no written value does that
(`ImportGraph.IsClosed`), loading succeeds.

The proof is an induction on the number of modules that are not loaded yet. The body of a module that
begins to load first provides its variables (`meets_exportLine`), and at its end a round makes all
copies of its exports current (`meets_evaluateBody`), whatever its importers were waiting for.
-/

set_option autoImplicit false

namespace ModuleLinkage.Ledger

namespace ImportGraph

variable {graph : ImportGraph} {run : Runner} {label : String} {allowed : Fault → Prop}
  {world start : World} {shape : ModuleShape} {place : Place}

/-- The first line of a body provides the variables of the module that has just been opened. -/
theorem meets_exportLine (hgraph : graph.WellFormed) (hshape : shape ∈ graph.modules)
    (hsettled : graph.Settled world) (hnew : world.loaded? shape.id = none)
    (hopened : world.Opened start shape.id place)
    (hexported : (start.entry place.entry).exported = []) :
    (perform run { current := some shape.id } shape.exportLine.command).Meets start
      (fun _ after => graph.Running (fun _ => False) shape place [] after ∧
        graph.Grows (· = shape.id) world after) allowed := by
  have hname : ((none : Option String) <|> Scope.current { current := some shape.id }) =
      some shape.id := rfl
  simp only [ModuleShape.exportLine, Command.command_line, perform]
  rw [meets_withModule hname hopened.places.named, Effect.meets_bind]
  have hheld := World.alike_held start ([.module place.module] ++ start.held)
  refine (meets_newProviders shape.exports).weaken ?_
  rintro rows supplied ⟨hsupplied, hrows⟩
  have hopened' := hsupplied.opened (hopened.alike_right hheld)
  have hexported' : (supplied.entry place.entry).exported = [] := by
    rw [hsupplied.exported, hheld.exported, hexported]
  have hentry : (supplied.space (supplied.module place.module).exports).entry =
      some place.entry := by
    rw [hopened'.places.exports, hopened'.places.entryOf]
  have hmodule : (supplied.space (supplied.module place.module).exports).isModule = true := by
    rw [hopened'.places.exports, hopened'.places.isModule]
  obtain ⟨hclaimed, halike⟩ := World.alike_claimExports hmodule hentry
  simp only [meets_silently, provide, Effect.meets_bind, Effect.meets_modifyGet,
    Effect.meets_modify, Effect.meets_get, hclaimed]
  generalize (supplied.claimExports place.module).2 = claimed at halike
  have hnames : rows.map (·.1) = shape.exports.map (·.1) :=
    map_fst_of_forall₂ (fun hrow => hrow.name) hrows
  obtain ⟨hprovided, hslots⟩ := (hopened'.alike_right halike).addProviders
    ((halike.exported _).trans hexported')
    (hnames ▸ hgraph.exportNames shape hshape : (rows.map (·.1)).Nodup)
  have hkept {row : String × String} {slot : String × ProviderRef × Bool}
      (hrow : claimed.ProvidesRow row slot) :
      (claimed.addProviders place.entry (.ofList rows) false).ProvidesRow row slot :=
    ⟨hrow.name, hrow.isConstant, hrow.providerLt, hrow.binding⟩
  generalize claimed.addProviders place.entry (.ofList rows) false = provided at *
  have hprovides : provided.Provides place.entry shape.exports := by
    unfold World.Provides
    rw [hslots, List.forall₂_map_right_iff]
    exact hrows.imp fun row slot hrow => hkept (halike.providesRow hrow)
  obtain ⟨hrunning, hgrows⟩ := hprovided.running hgraph hsettled hnew hshape rfl hprovides
  simp only [hprovided.isLoaded, Bool.false_eq_true, if_false, Effect.meets_pure]
  have hreleased := World.alike_held provided start.held
  exact ⟨hrunning.alike hgraph hshape hreleased, hgrows.trans (.of_keeps _ hreleased.toKeeps)⟩

/-- The lines of a body: its variables are provided, its imports subscribe, and its writes are
made. -/
theorem meets_bodyLines {bound loads : Nat} (hgraph : graph.WellFormed)
    (hshape : shape ∈ graph.modules) (hrounds : graph.RoundsMeet run bound allowed)
    (hbound : ∀ id ∈ graph.ids, graph.rank id < bound)
    (hloads : graph.LoadsMeet run loads allowed)
    (hvalues : ∀ write ∈ shape.writes, ∀ start,
      (write.value.evaluate { current := some shape.id }).Meets start
        (fun _ after => start.Alike after) allowed)
    (hsettled : graph.Settled world) (hnew : world.loaded? shape.id = none)
    (hunloaded : graph.unloaded world ≤ loads) (hopened : world.Opened start shape.id place)
    (hexported : (start.entry place.entry).exported = []) :
    (runLines run { current := some shape.id } label (shape.exportLine ::
      (shape.imports.map shape.importLine ++ shape.writes.flatMap Write.lines))).Meets start
      (fun _ after => graph.Running (fun _ => False) shape place shape.imports after ∧
        graph.Grows (· = shape.id) world after) allowed := by
  have hline : shape.exportLine.goesOn = false := rfl
  have himports : ∀ line ∈ shape.imports.map shape.importLine, line.goesOn = false := by
    intro line hmem
    obtain ⟨imp, -, rfl⟩ := List.mem_map.mp hmem
    rfl
  rw [meets_runLines_cons hline]
  refine (meets_exportLine hgraph hshape hsettled hnew hopened hexported).weaken ?_
  intro answer provided hprovided
  have hevent := World.alike_addEvent provided (.ran label shape.exportLine.name (.ok answer))
  have hgrows := hprovided.2.trans (.of_keeps _ hevent.toKeeps)
  have hrunning := hprovided.1.alike hgraph hshape hevent
  -- The module counts as loaded from here on, so that there are fewer others.
  have hfewer := Nat.lt_of_lt_of_le
    (hgrows.unloaded_lt hsettled.wired (mem_ids hshape) hnew hrunning.places) hunloaded
  rw [meets_runLines_append himports]
  refine (meets_importLines hgraph hshape hrounds hbound hloads (fun _ => id)
    (List.Nodup.of_map _ (hgraph.keys shape hshape)) (fun _ _ => List.not_mem_nil) hfewer
    hrunning).weaken fun _ imported himported => ?_
  refine (meets_flatMap_writeLines hgraph hshape hrounds hbound (fun _ => id) hvalues
    himported.1).weaken fun _ after hafter => ⟨?_, ?_⟩
  · exact hafter.1.congr fun imp _ => by simp
  · exact hgrows.trans (himported.2.trans hafter.2)

/-- The body of a module that has just been made runs to its end; a last round then makes all copies
of what the module exports current. -/
theorem meets_evaluateBody {depth loads : Nat} (hgraph : graph.WellFormed)
    (hallowed : ∀ error, ¬ allowed (.failed error)) (hshape : shape ∈ graph.modules)
    (hdepth : graph.modules.length ≤ depth) (hloads : graph.LoadsMeet (runner depth) loads allowed)
    (hvalues : ∀ write ∈ shape.writes, ∀ start,
      (write.value.evaluate { current := some shape.id }).Meets start
        (fun _ after => start.Alike after) allowed)
    (hsettled : graph.Settled world) (hnew : world.loaded? shape.id = none)
    (hunloaded : graph.unloaded world ≤ loads) (held : List Holding) :
    (runner (depth + 2) { current := some shape.id } label shape.body).Meets
      { world.created shape.id with held }
      (fun _ after => graph.Settled after ∧ graph.Grows (fun _ => False) world after ∧
        after.Places shape.id world.nextPlace) allowed := by
  have hname : ((none : Option String) <|> Scope.current { current := some shape.id }) =
      some shape.id := rfl
  have hmodule : ({ world.created shape.id with held } : World).names.modules.get? shape.id =
      some world.nextPlace.module := Table.get?_put_self ..
  have hbound (depth' : Nat) (hle : depth ≤ depth') :
      ∀ id ∈ graph.ids, graph.rank id < depth' := fun id hid =>
    Nat.lt_of_lt_of_le (rank_lt_length hgraph hid) (Nat.le_trans hdepth hle)
  change (runLines (runner (depth + 1)) _ label shape.body).Meets _ _ _
  rw [ModuleShape.body, meets_runLines_cons (Command.goesOn_line _), Command.command_line]
  simp only [perform]
  rw [meets_withModule hname hmodule]
  obtain ⟨-, hopened, hexported⟩ := world.opened_claimExports shape.id
    ([.module world.nextPlace.module] ++ held)
  simp only [meets_silently, evaluate, Effect.meets_bind, Effect.meets_modifyGet,
    Effect.meets_modify, meets_runLines_nil]
  refine (meets_bodyLines hgraph hshape (meets_propagate hgraph hallowed depth)
    (hbound depth (Nat.le_refl _)) hloads hvalues hsettled hnew hunloaded hopened
    hexported).weaken ?_
  rintro _ done ⟨hrunning, hgrows⟩
  obtain ⟨hpending, hgrowsLoaded⟩ := hrunning.setLoaded hgraph hshape
  have hplaces := hgrowsLoaded.places hrunning.places
  have hloaded : ((done.setLoaded world.nextPlace.module true).module
      world.nextPlace.module).isLoaded = true := by
    rw [module_setLoaded, if_pos ⟨rfl, hrunning.places.moduleLt⟩]
  generalize done.setLoaded world.nextPlace.module true = loaded at *
  have hentry : (loaded.space (loaded.module world.nextPlace.module).exports).entry =
      some world.nextPlace.entry := by
    rw [hplaces.exports, hplaces.entryOf]
  refine meets_propagateExports hentry fun begun hbegun => ?_
  refine (meets_propagate hgraph hallowed (depth + 1) (fun _ _ => False) hshape
    (hbound (depth + 1) (Nat.le_succ _) _ (mem_ids hshape))
    (hpending.wired.keeps hbegun.toKeeps) (hbegun.places_iff.mpr hplaces)).weaken ?_
  intro _ after hafter
  refine ⟨hafter.drift.toKeeps, fun last hlast => ?_⟩
  have hreleased := hlast.trans ((World.alike_held last held).trans (World.alike_addEvent _
    (.ran label (Command.evaluate none (shape.exportLine :: (shape.imports.map shape.importLine ++
      shape.writes.flatMap Write.lines))).line.name (.ok .done))))
  have hrounded := (hafter.alike_left hbegun).alike_right hreleased
  have hkeeps := hrounded.drift.toKeeps
  have hgrowsAll := hgrows.trans (hgrowsLoaded.trans (.of_keeps _ hkeeps))
  refine ⟨hpending.settle hgraph hshape hrounded, ?_, hkeeps.places_iff.mpr hplaces⟩
  refine hgrowsAll.close (fun before hbefore => ?_) (hkeeps.places_iff.mpr hplaces) ?_
  · rw [hbefore.loaded] at hnew
    cases hnew
  · rw [hkeeps.module, hloaded]

/-- Loading a module of the graph settles whatever it loads. The depth to which callbacks are nested
is bounded by the number of modules that are not loaded yet, and the number of modules. -/
theorem loadsMeet (hgraph : graph.WellFormed) (hallowed : ∀ error, ¬ allowed (.failed error))
    (hvalues : ∀ shape ∈ graph.modules, ∀ write ∈ shape.writes, ∀ start,
      (write.value.evaluate { current := some shape.id }).Meets start
        (fun _ after => start.Alike after) allowed)
    (loads : Nat) {depth : Nat} (hdepth : 2 * loads + graph.modules.length ≤ depth) :
    graph.LoadsMeet (runner depth) loads allowed := by
  induction loads generalizing depth with
  | zero =>
    intro world id _ _ hunloaded
    exact absurd hunloaded (Nat.not_lt_zero _)
  | succ loads ih =>
    intro world id hid hsettled hunloaded
    obtain ⟨depth, rfl⟩ : ∃ less, depth = less + 2 := ⟨depth - 2, by omega⟩
    obtain ⟨shape, hshape, rfl⟩ := List.mem_map.mp hid
    cases hloaded : world.loaded? shape.id with
    | some module =>
      obtain ⟨-, place, hplace⟩ := hsettled.wired.placed hloaded
      obtain rfl : module = place.module := Option.some.inj (hloaded.symm.trans hplace.loaded)
      simp only [load, Effect.meets_bind, Effect.meets_get, hloaded, Effect.meets_pure]
      exact ⟨hsettled, .of_keeps _ (.refl world), place, hplace, hplace.exports⟩
    | none =>
      have hfailures : world.host.failures.get? shape.id = none := by
        rw [hsettled.wired.host]
        rfl
      have hbody : world.host.bodies.get? shape.id = some shape.body := by
        rw [hsettled.wired.host, hgraph.body_host hshape]
      simp only [load, Effect.meets_bind, Effect.meets_get, hloaded, hfailures, hbody,
        Effect.meets_bound_some, Effect.meets_modifyGet, Effect.meets_modify,
        Effect.meets_holding, Effect.meets_pure]
      refine (meets_evaluateBody hgraph hallowed hshape (by omega) (ih (by omega))
        (hvalues shape hshape) hsettled hloaded (by omega) _).weaken ?_
      rintro _ after ⟨hafter, hgrows, hplace⟩
      have hreleased := World.alike_held after world.held
      have hplaceReleased := hreleased.places_iff.mpr hplace
      exact ⟨hafter.alike hgraph hreleased, hgrows.trans (.of_keeps _ hreleased.toKeeps),
        world.nextPlace, hplaceReleased, hplaceReleased.exports⟩

/-! ### The main result -/

/-- A world in which the host serves a graph and has not loaded anything. Variables may hold values,
as those of hoisted functions do, but locals hold nothing. -/
structure Unstarted (graph : ImportGraph) (world : World) : Prop where
  host : world.host = graph.host
  namesValid : World.NamesValid world.names.bindings world.bindings.size
  loaded? : ∀ id, world.loaded? id = none
  content : ∀ {shape imp name target}, graph.Feeds shape imp name target →
    world.content target = none

/-- A new world is one. -/
theorem unstarted_ofHost (graph : ImportGraph) : graph.Unstarted (World.ofHost graph.host) where
  host := rfl
  namesValid := { lt := (nomatch ·), inj := fun h _ => by cases h }
  loaded? _ := rfl
  content _ := rfl

/-- Before anything is loaded, the invariant of linking holds. -/
theorem Unstarted.settled (h : graph.Unstarted world) : graph.Settled world := by
  have hplaces {id : String} {place : Place} (hplace : world.Places id place) : False := by
    have hloaded := hplace.loaded
    rw [h.loaded?] at hloaded
    cases hloaded
  exact
    { wired :=
        { host := h.host
          namesValid := h.namesValid
          placed := fun hloaded => by rw [h.loaded?] at hloaded; cases hloaded
          apart := fun hplace _ _ => (hplaces hplace).elim
          provides := fun _ hplace => (hplaces hplace).elim
          registered := fun hplace _ => (hplaces hplace).elim
          once := fun hplace _ _ _ => (hplaces hplace).elim }
      fed := fun _ ⟨_, hplace, _⟩ => (hplaces hplace).elim
      unfed := fun hfeeds _ => h.content hfeeds
      unset := fun _ _ ⟨_, hplace, _⟩ => (hplaces hplace).elim
      imported := fun _ hplace => (hplaces hplace).elim
      current := fun _ hplace => (hplaces hplace).elim }

/-- Exporters and importers agree: every module that was loaded is done, what it imports from was
loaded, its locals hold what the imported variables hold, and its namespace shows what its exported
variables hold. -/
structure Agrees (graph : ImportGraph) (world : World) : Prop where
  isLoaded : ∀ {id module}, world.loaded? id = some module →
    (world.module module).isLoaded = true
  sources : ∀ {shape module imp}, shape ∈ graph.modules → world.loaded? shape.id = some module →
    imp ∈ shape.imports → ∃ source, world.loaded? imp.source = some source
  locals : ∀ {shape module imp name target exporter exported},
    world.loaded? shape.id = some module → graph.Feeds shape imp name target →
      exporter ∈ graph.modules → exporter.id = imp.source → (name, exported) ∈ exporter.exports →
        world.content target = world.content exported
  shown : ∀ {shape module name exported}, shape ∈ graph.modules →
    world.loaded? shape.id = some module → (name, exported) ∈ shape.exports →
      world.member? (world.module module).exports name = world.content exported

/-- Where the invariant holds and all that was begun is done, exporters and importers agree. -/
theorem Sound.agrees (hgraph : graph.WellFormed) (h : graph.Settled world)
    (hloaded : ∀ {id place}, world.Places id place →
      (world.module place.module).isLoaded = true) : graph.Agrees world := by
  have hplaced {id : String} {module : ModuleRef} (hmodule : world.loaded? id = some module) :
      ∃ place, world.Places id place ∧ place.module = module := by
    obtain ⟨-, place, hplace⟩ := h.wired.placed hmodule
    exact ⟨place, hplace, Option.some.inj (hplace.loaded.symm.trans hmodule)⟩
  refine { isLoaded := ?_, sources := ?_, locals := ?_, shown := ?_ }
  · intro id module hmodule
    obtain ⟨place, hplace, rfl⟩ := hplaced hmodule
    exact hloaded hplace
  · intro shape module imp hshape hmodule himp
    obtain ⟨place, hplace, rfl⟩ := hplaced hmodule
    obtain ⟨_, source, hsource, -⟩ := h.imported hshape hplace (hloaded hplace) imp himp
    exact ⟨source.module, hsource.loaded⟩
  · intro shape module imp name target exporter exported hmodule hfeeds hexporter hid hexport
    obtain ⟨place, hplace, rfl⟩ := hplaced hmodule
    obtain ⟨batch, hsubscribed⟩ :=
      h.imported hfeeds.shape_mem hplace (hloaded hplace) imp hfeeds.imp_mem
    have hfed := h.fed hfeeds hsubscribed
    obtain ⟨-, hregistered⟩ := h.wired.registered_of_subscribed hgraph hfeeds.shape_mem
      hfeeds.imp_mem hsubscribed
    obtain ⟨source, hsource, hbatch, -⟩ := hsubscribed
    rw [← hid] at hsource
    -- The batch is concerned with the name, since the import feeds a local with it.
    have hconcerned : (world.batch batch).concerned name ≠ [] := by
      obtain ⟨feed, hfeed, -⟩ := hfeeds.feed
      rcases concerned_cases hgraph hfeeds.shape_mem hfeeds.imp_mem hregistered name with
        ⟨-, hnot⟩ | ⟨_, _, -, -, hone⟩
      · exact absurd (List.mem_map_of_mem (f := Prod.fst) hfeed) hnot
      · rw [hone]
        exact List.cons_ne_nil _ _
    have hcurrent := h.current hexporter hsource (hloaded hsource) not_false hexport
      ⟨source, hsource, .inr ⟨batch, hbatch, rfl, hconcerned⟩⟩
    exact hfed.trans hcurrent
  · intro shape module name exported hshape hmodule hexport
    obtain ⟨place, hplace, rfl⟩ := hplaced hmodule
    rw [hplace.exports]
    exact h.current hshape hplace (hloaded hplace) not_false hexport ⟨place, hplace, .inl rfl⟩

end ImportGraph

/-- Whether a term has a value wherever it stands. -/
def ValueTerm.isClosed : ValueTerm → Bool
  | .space _ => false
  | .receivedValue => false
  | .receivedName => false
  | _ => true

theorem meets_evaluate_of_isClosed {term : ValueTerm} (hterm : term.isClosed = true)
    {scope : Scope} {world : World} {allowed : Fault → Prop} :
    (term.evaluate scope).Meets world (fun _ after => world.Alike after) allowed := by
  cases term with
  | undefined | null | bool | number | text | object =>
    exact (Effect.meets_pure _).mpr (World.Asked.refl world)
  | binding name =>
    simp only [ValueTerm.evaluate, findBinding, Effect.meets_bind, Effect.meets_modifyGet,
      Effect.meets_get, Effect.meets_pure]
    exact World.alike_bindingNamed world name
  | space | receivedValue | receivedName => cases hterm

namespace ImportGraph

/-- Every value written by a body of the graph has a term that has a value wherever it stands. -/
def IsClosed (graph : ImportGraph) : Prop :=
  ∀ shape ∈ graph.modules, ∀ write ∈ shape.writes, write.value.isClosed = true

/-- **Import graphs settle.** Loading any module of a well-formed graph, in a world in which nothing
is loaded yet, gives its exports and leaves exporters and importers in agreement, if callbacks may be
nested deep enough. Where it fails, a body has written a value whose term names something that does
not exist. -/
theorem load_settles {graph : ImportGraph} {world : World} {entry : String} {depth : Nat}
    (hgraph : graph.WellFormed) (hstart : graph.Unstarted world) (hentry : entry ∈ graph.ids)
    (hdepth : 3 * graph.modules.length + 2 ≤ depth) :
    (load (runner depth) entry).Meets world
      (fun space after => graph.Agrees after ∧
        ∃ module, after.loaded? entry = some module ∧ (after.module module).exports = space)
      (fun fault => ¬ graph.IsClosed ∧ ∃ name, fault = .unbound name) := by
  have hvalues : ∀ shape ∈ graph.modules, ∀ write ∈ shape.writes, ∀ start,
      (write.value.evaluate { current := some shape.id }).Meets start
        (fun _ after => start.Alike after)
        (fun fault => ¬ graph.IsClosed ∧ ∃ name, fault = .unbound name) := by
    intro shape hshape write hwrite start
    by_cases hclosed : graph.IsClosed
    · exact meets_evaluate_of_isClosed (hclosed shape hshape write hwrite)
    · exact meets_evaluate _ _ fun name => ⟨hclosed, name, rfl⟩
  have hloads := loadsMeet hgraph (fun error h => by obtain ⟨-, name, hname⟩ := h; cases hname)
    hvalues (graph.modules.length + 1) (show _ ≤ depth by omega)
  have hunloaded := Nat.lt_succ_of_le (graph.unloaded_le_length world)
  refine (hloads hentry hstart.settled hunloaded).weaken ?_
  rintro _ after ⟨hsettled, hgrows, place, hplace, rfl⟩
  refine ⟨hsettled.agrees hgraph fun hother => ?_, place.module, hplace.loaded, hplace.exports⟩
  rcases hgrows.finished hother not_false with hbefore | hdone
  · have hloaded := hbefore.loaded
    rw [hstart.loaded?] at hloaded
    cases hloaded
  · exact hdone

/-! ### An example -/

/-- Two modules that import each other, and a third one that passes on what it imports. -/
def cycle : ImportGraph where
  modules :=
    [{ id := "a", exports := [("x", "a.x")]
       imports := [{ source := "b", key := 0, feeds := [("y", .assign "a.y")] }]
       writes := [⟨"a.x", .bool true, false⟩] },
     { id := "b", exports := [("y", "b.y")]
       imports := [{ source := "a", key := 0, feeds := [("x", .callback ["b.x"])] }]
       writes := [⟨"b.y", .binding "b.x", true⟩] },
     { id := "c", exports := [("z", "c.x")]
       imports := [{ source := "a", key := 10, feeds := [("x", .callback ["c.x"])] }]
       writes := [] }]

/-- The locals of these modules. -/
theorem cycle_feeds {shape : ModuleShape} {imp : Import} {name target : String}
    (h : cycle.Feeds shape imp name target) :
    (cycle.modules[0]? = some shape ∧ shape.imports = [imp] ∧ name = "y" ∧ target = "a.y") ∨
      (cycle.modules[1]? = some shape ∧ shape.imports = [imp] ∧ name = "x" ∧ target = "b.x") ∨
        (cycle.modules[2]? = some shape ∧ shape.imports = [imp] ∧ name = "x" ∧ target = "c.x") := by
  obtain ⟨hshape, himp, feed, hfeed, htarget⟩ := h
  simp only [cycle, List.mem_cons, List.not_mem_nil, or_false] at hshape
  rcases hshape with rfl | rfl | rfl <;>
    obtain rfl := List.mem_singleton.mp himp <;>
    obtain ⟨rfl, rfl⟩ := Prod.mk.inj (List.mem_singleton.mp hfeed) <;>
    obtain rfl := List.mem_singleton.mp htarget <;>
    simp [cycle]

theorem cycle_wellFormed : cycle.WellFormed where
  ids := by decide
  source := by decide
  keys := by decide
  exportNames := by decide
  feedNames := by decide
  noWildcard := by decide
  direct := by
    intro shape hshape imp himp name target hfeed
    rcases cycle_feeds ⟨hshape, himp, _, hfeed, List.mem_singleton_self _⟩ with
      ⟨hs, hi, rfl, rfl⟩ | ⟨hs, hi, rfl, rfl⟩ | ⟨hs, hi, rfl, rfl⟩ <;>
      cases hs
    · rfl
    · obtain rfl := (List.cons.inj hi).1
      simp at hfeed
    · obtain rfl := (List.cons.inj hi).1
      simp at hfeed
  fedOnce h h' := by
    have hcases := cycle_feeds h
    have hcases' := cycle_feeds h'
    rcases hcases with ⟨hs, hi, rfl, rfl⟩ | ⟨hs, hi, rfl, rfl⟩ | ⟨hs, hi, rfl, rfl⟩ <;>
      simp at hcases' <;> grind
  exportsOwn := by
    intro shape shape' imp name target hshape' hfeeds hexported
    rcases cycle_feeds hfeeds with
      ⟨hs, -, -, rfl⟩ | ⟨hs, -, -, rfl⟩ | ⟨hs, -, -, rfl⟩ <;>
      cases hs <;>
      simp only [cycle, List.mem_cons, List.not_mem_nil, or_false] at hshape' <;>
      rcases hshape' with rfl | rfl | rfl <;>
      first | rfl | exact absurd hexported (by decide)
  writesOwn := by
    intro shape hshape write hwrite
    refine ⟨fun shape' imp name hfeeds => ?_, fun shape' hshape' hexported => ?_⟩
    · rcases cycle_feeds hfeeds with
        ⟨-, -, -, hlocal⟩ | ⟨-, -, -, hlocal⟩ | ⟨-, -, -, hlocal⟩ <;>
        simp only [cycle, List.mem_cons, List.not_mem_nil, or_false] at hshape <;>
        rcases hshape with rfl | rfl | rfl <;>
        simp at hwrite <;> subst hwrite <;> exact absurd hlocal (by decide)
    · simp only [cycle, List.mem_cons, List.not_mem_nil, or_false] at hshape hshape'
      rcases hshape with rfl | rfl | rfl <;> rcases hshape' with rfl | rfl | rfl <;>
        simp at hwrite <;> subst hwrite <;> first | rfl | exact absurd hexported (by decide)
  acyclic id h := by
    have hforwards {id source : String} (h : cycle.Forwards id source) :
        id = "c" ∧ source = "a" := by
      obtain ⟨shape, imp, name, target, hfeeds, hexported, rfl, rfl⟩ := h
      rcases cycle_feeds hfeeds with
        ⟨hs, hi, -, rfl⟩ | ⟨hs, hi, -, rfl⟩ | ⟨hs, hi, -, rfl⟩ <;>
        cases hs <;> obtain rfl := (List.cons.inj hi).1
      · exact absurd hexported (by decide)
      · exact absurd hexported (by decide)
      · exact ⟨rfl, rfl⟩
    obtain ⟨_, hfirst, -⟩ := Relation.TransGen.head'_iff.mp h
    obtain ⟨_, -, hlast⟩ := Relation.TransGen.tail'_iff.mp h
    have hid := (hforwards hfirst).1
    rw [(hforwards hlast).2] at hid
    exact absurd hid (by decide)

theorem cycle_isClosed : cycle.IsClosed := by
  simp only [IsClosed, cycle, List.forall_mem_cons]
  exact ⟨by decide, by decide, by decide, by simp⟩

/-- Whichever module of it is loaded first, the cycle settles. -/
theorem cycle_settles : ∃ space after,
    (load (runner 11) "c").outcome (World.ofHost cycle.host) = (.ok space, after) ∧
      cycle.Agrees after := by
  have hentry : "c" ∈ cycle.ids := by decide
  have hdepth : 3 * cycle.modules.length + 2 ≤ 11 := by decide
  have hsettles := load_settles cycle_wellFormed (unstarted_ofHost cycle) hentry hdepth
  obtain ⟨space, after, houtcome, hagrees, -⟩ :=
    (hsettles.mono (fun _ _ => id) fun _ hfault => hfault.1 cycle_isClosed).exists_outcome
  exact ⟨space, after, houtcome, hagrees⟩

end ImportGraph

end ModuleLinkage.Ledger
