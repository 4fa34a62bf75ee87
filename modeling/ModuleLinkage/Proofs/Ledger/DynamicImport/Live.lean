import ModuleLinkage.Proofs.Ledger.DynamicImport.View

/-!
# Dynamic imports are deferred and live

The first poll of a dynamic import does nothing but note that it was polled (`World.Defers`). A poll
that gives a namespace gives one that nothing gave before, with exactly the values of the poll's own
round if this goes by itself; and after every later round over the entry of the same exports the
namespace has every value of that round, if the round goes by itself and its callbacks spare the
namespace (`World.GivesView`).

This holds of all worlds that are reached from a new one (`defers_and_follows`), in whatever order
imports are polled, modules run and rounds nest. A namespace is no more than what programs can get
at and write to: a callback that writes there after the round has been there is not undone by the
round (`overwritten_view`).
-/

set_option autoImplicit false

namespace ModuleLinkage.Ledger

open Effect

variable {world refreshed after : World} {depth : Nat} {entry : EntryRef}
  {values : List (String × Value)}

/-! ### The poll that is first -/

/-- Dynamic imports are polled a first time, and what that comes to. -/
structure World.Defers (world : World) : Prop where
  /-- A new dynamic import was not polled. -/
  made : ∀ module specifier, ((world.newImport module specifier).2.dynamicImport
    (world.newImport module specifier).1).isDeferred = false
  /-- The first poll is not done, wakes its caller once, and runs nothing; but for what is noted of
  dynamic imports the world is as it was. -/
  first : ∀ (run : Runner) {name : String} {pending : ImportRef},
    world.names.imports.get? name = some pending → (world.dynamicImport pending).isDeferred = false →
      ∃ imports description, world.deferImport pending = { world with imports } ∧
        (pollNamed run name).outcome world = (.ok (.pending 1 description), world.deferImport pending)
  /-- A dynamic import that was polled had such a first poll. -/
  polled : ∀ {pending : ImportRef} {later : World}, world.Reaches later →
    (world.dynamicImport pending).isDeferred = false → (later.dynamicImport pending).isDeferred = true →
      ∃ found : World, world.Reaches found ∧ (found.dynamicImport pending).isDeferred = false ∧
        (found.deferImport pending).Reaches later

theorem World.defers (world : World) : world.Defers where
  made module specifier := congrArg DynamicImport.isDeferred
    ((Store.get_add world.imports ⟨module, specifier, false⟩ _).trans (if_pos rfl))
  first run name pending hname hfirst := by
    have hpoll (held : List Holding) : (poll run pending).outcome { world with held } =
        (.ok none, { world.deferImport pending with held }) := by
      have hfirst' : (World.dynamicImport { world with held } pending).isDeferred = false := hfirst
      simp only [poll, outcome_bind, outcome_get, hfirst', Bool.not_false, if_true, outcome_modify,
        outcome_pure]
      rfl
    refine ⟨_, (world.deferImport pending).describeImport pending, rfl, ?_⟩
    simp only [pollNamed, outcome_bind, outcome_get, hname, bound, outcome_pure, outcome_holding, hpoll]
    rfl
  polled hreaches := hreaches.exists_poll

/-! ### The namespace that a poll gives -/

/-- How a poll of a dynamic import, begun in `world`, comes to give the namespace `view`: `exports`
are those of the module that it has requested, `entry` is their entry, and `begun` is the world in
which its round begins. -/
structure World.GivesView (depth : Nat) (pending : ImportRef) (world requested begun after : World)
    (exports view : NamespaceRef) (entry : EntryRef) : Prop where
  requests : (request (runner depth) (world.dynamicImport pending).module
    (world.dynamicImport pending).specifier).outcome world = (.ok exports, requested)
  reaches : world.Reaches requested ∧ requested.Reaches begun ∧ begun.Reaches after
  round : ∃ rounded held, (propagate (runner depth) entry).outcome begun = (.ok (), rounded) ∧
    after = { rounded with held }
  /-- No world before has had the namespace, and this one has it as that of a module. -/
  isNew : (∀ earlier : World, earlier.Reaches requested → earlier.spaces.size ≤ view.index) ∧
    view.index < after.spaces.size ∧ (after.space view).isModule = true
  /-- The entry is the one of the exports, now and later. -/
  entryOf : (begun.entry entry).space = exports ∧ (begun.space exports).entry = some entry ∧
    ∀ later : World, after.Reaches later → (later.space exports).entry = some entry
  /-- If the poll's round goes by itself, the namespace has exactly the values that the round takes: where
  there are no providers and the exports are not those of a module, these as the default. -/
  holds : begun.RoundsApart passesAll entry → ∃ values refreshed,
    (refresh (runner depth) entry).outcome begun = (.ok values, refreshed) ∧
      (after.space view).members.rows = values ∧
        (begun.exportsItself entry = true → values = [(defaultName, .space exports)])
  /-- After every later round that goes by itself, with callbacks that spare the namespace, this has every
  value of the round. -/
  follows : ∀ {later last : World} {depth : Nat}, after.Reaches later →
    (propagate (runner depth) entry).outcome later = (.ok (), last) →
      later.RoundsApart (sparesSpace view) entry → ∃ values refreshed,
        (refresh (runner depth) entry).outcome later = (.ok values, refreshed) ∧
          ∀ row ∈ values, last.member? view row.1 = some row.2

/-- A round by itself in a world where the namespace is ready puts its values there and nothing else. -/
theorem World.Ready.rows_of_apart {batch : BatchRef} {view exports : NamespaceRef} {refreshed : World}
    (h : world.Ready batch view exports entry) (hworld : world.Coherent)
    (hround : (propagate (runner depth) entry).outcome world = (.ok (), after))
    (hapart : world.RoundsApart passesAll entry)
    (hrefresh : (refresh (runner depth) entry).outcome world = (.ok values, refreshed)) :
    (after.space view).members.rows = values := by
  have hreaches := reaches_refresh hworld.inSight hrefresh
  have hapartRound := outcome_propagate_of_apart hround hapart
  have hapartRefresh := outcome_refresh_of_apart hapartRound hrefresh
  obtain ⟨hview, hconceals⟩ := h.conceals
  have hlisted := (hreaches.retains hworld).listed h.listed hconceals.mirrors.key
  have hafter := hconceals.propagate hapartRefresh ((hreaches.coherent hworld).inOrder.distinct entry)
    hlisted hapartRound
  rw [hafter.members]
  exact Table.rows_ofList ((nodup_refresh _ (hworld.inOrder.slots entry)).of_outcome_ok hrefresh)

/-- After a round by itself whose callbacks spare a namespace that mirrors the entry, the namespace
has every value of the round. -/
theorem World.Mirrors.follows {batch : BatchRef} {view : NamespaceRef} (h : world.Mirrors batch view)
    (hworld : world.Coherent) (hlisted : batch ∈ (world.entry entry).batches)
    (hround : (propagate (runner depth) entry).outcome world = (.ok (), after))
    (hapart : world.RoundsApart (sparesSpace view) entry) :
    ∃ values refreshed, (refresh (runner depth) entry).outcome world = (.ok values, refreshed) ∧
      ∀ row ∈ values, after.member? view row.1 = some row.2 := by
  obtain ⟨values, refreshed, hrefresh⟩ := exists_refresh hround
  have hreaches := reaches_refresh hworld.inSight hrefresh
  have hapartRound := outcome_propagate_of_apart hround hapart
  have hapartRefresh := outcome_refresh_of_apart hapartRound hrefresh
  have hlisted' := (hreaches.retains hworld).listed hlisted h.key
  exact ⟨values, refreshed, hrefresh, member?_propagate_of_spared h (hworld.inOrder.slots entry)
    hapartRefresh ((hreaches.coherent hworld).inOrder.distinct entry) hlisted' hapartRound⟩

/-- What an entry without providers yields, if its namespace is not that of a module. -/
theorem refresh_of_exportsItself (hself : world.exportsItself entry = true)
    (hrefresh : (refresh (runner depth) entry).outcome world = (.ok values, refreshed)) :
    values = [(defaultName, .space (world.entry entry).space)] := by
  have hvalues : (refresh (runner depth) entry).Meets world
      (fun values _ => values = [(defaultName, .space (world.entry entry).space)]) fun _ => False :=
    meets_refresh_of_exportsItself hself rfl
  exact hvalues.of_outcome_ok hrefresh

/-- A round over the entry of a namespace, in the world in which it begins. -/
theorem exists_round_of_propagateFrom {run : Runner} {space : NamespaceRef}
    (hentry : (world.space space).entry = some entry)
    (houtcome : (propagateFrom run space).outcome world = (.ok (), after)) :
    ∃ held rounded held', (propagate run entry).outcome { world with held } = (.ok (), rounded) ∧
      after = { rounded with held := held' } := by
  obtain ⟨_, _, hread, hfound⟩ := exists_of_outcome_bind houtcome
  cases hread
  rw [hentry] at hfound
  obtain ⟨_, hheld, rfl⟩ := exists_of_outcome_holding hfound
  obtain ⟨rounded, hround, rfl⟩ := exists_of_outcome_holding hheld
  exact ⟨_, rounded, _, hround, rfl⟩

/-- A round that begins where the namespace is ready gives the namespace. -/
theorem World.Ready.givesView {pending : ImportRef} {batch : BatchRef} {exports view : NamespaceRef}
    {requested begun rounded : World} (hworld : world.Coherent)
    (hrequest : (request (runner depth) (world.dynamicImport pending).module
      (world.dynamicImport pending).specifier).outcome world = (.ok exports, requested))
    (hview : view.index = requested.spaces.size) (hbegun : requested.Reaches begun)
    (hready : begun.Ready batch view exports entry)
    (hround : (propagate (runner depth) entry).outcome begun = (.ok (), rounded))
    (hafter : ∃ held, after = { rounded with held }) :
    world.GivesView depth pending requested begun after exports view entry := by
  obtain ⟨hrequested, -⟩ := reaches_request hworld.inSight hrequest
  have hcoherent := hbegun.coherent (hrequested.coherent hworld)
  have hrounded := reaches_propagate hcoherent.inSight hround
  obtain ⟨held, hheld⟩ := hafter
  have hended : begun.Reaches after :=
    hheld ▸ hrounded.trans (reaches_held (hrounded.coherent hcoherent).inSight held)
  obtain ⟨_, hconceals⟩ := hready.conceals
  obtain ⟨-, hspace⟩ := hcoherent.attached hready.entryOf
  refine
    { requests := hrequest, reaches := ⟨hrequested, hbegun, hended⟩, round := ⟨rounded, held, hround, hheld⟩
      isNew := ⟨fun _ hearlier => hview ▸ hearlier.spaceCount, ?_, ?_⟩
      entryOf := ⟨hspace, hready.entryOf, fun later hlater => ?_⟩
      holds := fun hapart => ?_, follows := fun hlater hround hapart => ?_ }
  · exact Nat.lt_of_lt_of_le hconceals.mirrors.spaceCount hended.spaceCount
  · exact (hended.retains hcoherent).isModule view hready.isModule
  · exact ((hended.trans hlater).retains hcoherent).entryOf hready.entryOf
  · obtain ⟨values, refreshed, hrefresh⟩ := exists_refresh hround
    have hrows := hready.rows_of_apart hcoherent hround hapart hrefresh
    refine ⟨values, refreshed, hrefresh, hheld ▸ hrows, fun hself => ?_⟩
    exact hspace ▸ refresh_of_exportsItself hself hrefresh
  · have hretains := (hended.trans hlater).retains hcoherent
    exact (hconceals.mirrors.retains hretains).follows ((hended.trans hlater).coherent hcoherent)
      (hretains.listed hready.listed hconceals.mirrors.key) hround hapart

/-- A dynamic import that gives a namespace. -/
theorem givesView_of_importNamespace {view : NamespaceRef} {pending : ImportRef} (hworld : world.Coherent)
    (houtcome : (importNamespace (runner depth) (world.dynamicImport pending).module
      (world.dynamicImport pending).specifier).outcome world = (.ok view, after)) :
    ∃ requested begun exports entry,
      world.GivesView depth pending requested begun after exports view entry := by
  obtain ⟨exports, requested, hrequest, houtcome⟩ := exists_of_outcome_bind houtcome
  obtain ⟨given, spaced, hspaced, houtcome⟩ := exists_of_outcome_bind houtcome
  obtain ⟨_, enrolled, henrolled, houtcome⟩ := exists_of_outcome_bind houtcome
  obtain ⟨_, ended, hheld, hgiven⟩ := exists_of_outcome_bind houtcome
  obtain ⟨hsame, rfl⟩ := Prod.mk.inj hgiven
  obtain rfl : given = view := Except.ok.inj hsame
  obtain ⟨hview, hspaced⟩ := Prod.mk.inj hspaced
  have hview : (requested.newSpace true).1 = given := Except.ok.inj hview
  have hspaced : (requested.newSpace true).2 = spaced := hspaced
  obtain ⟨hrequested, hsees⟩ := reaches_request hworld.inSight hrequest
  have hcoherent := hrequested.coherent hworld
  obtain ⟨hreaches, hready⟩ := ready_newSpace hcoherent (spaces_of_request hworld.grounded hrequest) hsees
    (world.dynamicImport pending).module
  rw [hview, hspaced] at hreaches hready
  rw [World.outcome_subscribe_view] at henrolled
  rw [(Prod.mk.inj henrolled).2] at hreaches hready
  obtain ⟨final, hfinal, hended⟩ := exists_of_outcome_holding hheld
  obtain ⟨held, rounded, _, hround, hfinal⟩ :=
    exists_round_of_propagateFrom (hready.held _).entryOf hfinal
  have hbegun : requested.Reaches { enrolled with held } :=
    hreaches.trans (reaches_held (hreaches.coherent hcoherent).inSight held)
  refine ⟨requested, _, exports, _, (hready.held held).givesView hworld hrequest ?_ hbegun hround ?_⟩
  · exact hview ▸ rfl
  · exact ⟨enrolled.held, hended.trans (hfinal ▸ rfl)⟩

/-- **Dynamic imports are deferred and live.** In every world that is reached from a new one, in
whatever order dynamic imports are polled and whatever else runs: the first poll of a dynamic import
only notes that it was polled; and a poll that gives a namespace gives a new one, with the values of
its round, which follows the exporter from then on. -/
theorem defers_and_follows {host : Host} (hworld : (World.ofHost host).Reaches world) :
    world.LeadsOn ∧ world.Defers ∧ ∀ {depth : Nat} {pending : ImportRef} {view : NamespaceRef}
      {after : World}, (poll (runner depth) pending).outcome world = (.ok (some view), after) →
        ∃ requested begun exports entry,
          world.GivesView depth pending requested begun after exports view entry := by
  have hcoherent := hworld.coherent (World.coherent_ofHost host)
  refine ⟨hcoherent.inSight.leadsOn, world.defers, fun {depth pending view after} houtcome => ?_⟩
  obtain ⟨_, _, hread, houtcome⟩ := exists_of_outcome_bind houtcome
  cases hread
  dsimp only at houtcome
  split at houtcome
  · obtain ⟨_, _, -, hgiven⟩ := exists_of_outcome_bind houtcome
    cases hgiven
  · obtain ⟨_, _, himported, hgiven⟩ := exists_of_outcome_bind houtcome
    cases hgiven
    exact givesView_of_importNamespace hcoherent himported

/-- A namespace that a poll has given may be given a name. -/
theorem reaches_nameSpace {pending : ImportRef} {view : NamespaceRef} (hworld : world.Coherent)
    (houtcome : (poll (runner depth) pending).outcome world = (.ok (some view), after)) (name : String) :
    after.Reaches (after.nameSpace name view) ∧ (after.nameSpace name view).LeadsOn := by
  obtain ⟨-, hfits, hsees⟩ := heeds_poll follows_reaches (fun _ => id) (heeds_reaches depth) pending world
    (.refl _ _) hworld.inSight.fits
  rw [houtcome] at hfits hsees
  have hnamed : Act (fun _ => True) Sight.existing after (after.nameSpace name view) :=
    hfits.inSight.act_nameSpace name (hsees _ rfl view rfl)
  exact ⟨follows_reaches.act hnamed, hnamed.inSight.leadsOn⟩

/-! ### An example -/

/-- A host of one module, which exports a variable. -/
def variableHost : Host :=
  { bodies := Table.ofList [("e", [(Command.provide none [(.fixed "a", .binding "x")] false).line])]
    aliases := .empty
    failures := .empty }

/-- A module has asked for that one later, and the dynamic import was polled once. -/
def polledOnce : World :=
  (World.ofHost variableHost).afterwards 4
    [(Command.createModule "m" "m" true).line, (Command.createBinding "x" (some (.text "old"))).line,
      (Command.importLater (some "m") "e" "f").line, (Command.poll "f").line]

/-- The dynamic import was polled again. -/
def polledTwice : World :=
  ((poll (runner 4) ⟨0⟩).outcome polledOnce).2

/-- And the variable has a new value. -/
def changed : World :=
  polledTwice.afterwards 4 [(Command.setBinding "x" (.text "new")).line]

theorem reaches_polledOnce : (World.ofHost variableHost).Reaches polledOnce :=
  (World.coherent_ofHost variableHost).inSight.leadsOn.program 4 _

theorem outcome_polledOnce :
    (poll (runner 4) ⟨0⟩).outcome polledOnce = (.ok (some ⟨2⟩), polledTwice) := by
  have hok : ((poll (runner 4) ⟨0⟩).outcome polledOnce).1 = .ok (some ⟨2⟩) := by decide +kernel
  rw [polledTwice, ← hok]

/-- The result for that module: the second poll gives a namespace, which has the value of the
variable, and the new one after the next round. -/
theorem defers_and_follows_polledOnce : (World.ofHost variableHost).Reaches polledOnce ∧
    (poll (runner 4) ⟨0⟩).outcome polledOnce = (.ok (some ⟨2⟩), polledTwice) ∧ polledOnce.Defers ∧
    (∃ requested begun exports entry,
      polledOnce.GivesView 4 ⟨0⟩ requested begun polledTwice exports ⟨2⟩ entry) ∧
    polledTwice.member? ⟨2⟩ "a" = some (.text "old") ∧
    changed.RoundsApart (sparesSpace ⟨2⟩) ⟨0⟩ ∧
    ((propagate (runner 4) ⟨0⟩).outcome changed).2.member? ⟨2⟩ "a" = some (.text "new") := by
  obtain ⟨-, hdefers, hgives⟩ := defers_and_follows reaches_polledOnce
  exact ⟨reaches_polledOnce, outcome_polledOnce, hdefers, hgives outcome_polledOnce,
    Outlet.eq_some_of_same (by decide +kernel), by decide +kernel,
    Outlet.eq_some_of_same (by decide +kernel)⟩

/-- The namespace has got a name, another consumer writes there whatever it receives, and the
variable has a new value. -/
def overwriting : World :=
  (polledTwice.nameSpace "f" ⟨2⟩).afterwards 4
    [(Command.watch (some "m") (.exportsOf "e")
      { consumers := some [(.fixed "a",
          .callback none [(Command.setMember (.named "f") (.fixed "a") (.text "other")).line])]
        key := none, spaces := [] }).line,
      (Command.setBinding "x" (.text "new")).line]

theorem reaches_overwriting : polledTwice.Reaches overwriting := by
  obtain ⟨hnamed, hleadsOn⟩ :=
    reaches_nameSpace (reaches_polledOnce.coherent (World.coherent_ofHost variableHost))
      outcome_polledOnce "f"
  exact hnamed.trans (hleadsOn.program 4 _)

/-- After a round the namespace may be without a value of the round although the callbacks leave the
ledger alone, if one of them writes there. -/
theorem overwritten_view : (World.ofHost variableHost).Reaches polledOnce ∧
    (poll (runner 4) ⟨0⟩).outcome polledOnce = (.ok (some ⟨2⟩), polledTwice) ∧
    polledTwice.Reaches overwriting ∧ (overwriting.space ⟨1⟩).entry = some ⟨0⟩ ∧
    ((propagate (runner 4) ⟨0⟩).outcome overwriting).1 = .ok () ∧
    overwriting.RoundsApart passesAll ⟨0⟩ ∧
    ((refresh (runner 4) ⟨0⟩).outcome overwriting).1 = .ok [("a", .text "new")] ∧
    ((propagate (runner 4) ⟨0⟩).outcome overwriting).2.member? ⟨2⟩ "a" = some (.text "other") :=
  ⟨reaches_polledOnce, outcome_polledOnce, reaches_overwriting, by decide +kernel, by decide +kernel,
    by decide +kernel, by decide +kernel, Outlet.eq_some_of_same (by decide +kernel)⟩

end ModuleLinkage.Ledger
