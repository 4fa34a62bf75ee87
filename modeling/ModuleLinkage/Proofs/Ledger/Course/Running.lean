import ModuleLinkage.Proofs.Ledger.Course.Acting

/-!
# Runs are made of acts

One lemma for each function of the ledger shows that it heeds a sight, with the lines that callbacks
run as its hypothesis (`Runner.Heeds`). Deliveries do, as long as they leave batches alone that hide
something; and where nothing is hidden, every command does (`stays_perform`) and, however deep
callbacks are nested, every program (`heeds_runner`).

One change is more than an act: that an entry is loaded when a call that shows a module's values has
come to its end (`Completing`). What must have gone before it is left to the relation
(`Runner.Heeds.completed`).

Where everything is in sight, this is about moves: a relation admits moves (`Admits`) if it is reflexive
and transitive and contains every move, and whatever runs stays within it (`Effect.Within`).
-/

set_option autoImplicit false

namespace ModuleLinkage.Ledger

open Effect

/-- A call that shows the values of `module` has come to the point where it marks `entry` as loaded:
from the world `called` its round has led to the world `rounded`, and has succeeded; the module is
loaded; and in `world`, with an owner settled, it owns the entry. -/
structure Completing (run : Runner) (module : ModuleRef) (called rounded : World) (entry : EntryRef)
    (world : World) : Prop where
  round : (propagateFrom run (called.module module).exports).outcome called = (.ok (), rounded)
  loaded : (rounded.module module).isLoaded = true
  claims : rounded.ownedEntryFor (called.module module).exports module = (entry, world)
  owned : (world.entry entry).owner = some module

/-- What is asked of the programs that callbacks run. -/
structure Runner.Heeds (allowed : Command → Prop) (sight : Sight) (rel : World → World → Prop)
    (run : Runner) : Prop where
  lines : ∀ {count : Nat} {scope : Scope} (label : String) {lines : Program},
    Program.Confined allowed lines → sight.Shows count scope.holdings →
      (run scope label lines).Stays allowed sight rel count
  completed : ∀ {module : ModuleRef} {called rounded : World} {entry : EntryRef} {world : World},
    Completing run module called rounded entry world → rel called rounded → rel called world →
      world.InSight sight → rel called (world.markLoaded entry)

section

variable {allowed : Command → Prop} {sight : Sight} {rel : World → World → Prop} {run : Runner}
  {count : Nat}

/-! ### Rounds -/

/-- What a provider yields is in sight. -/
theorem heeds_ask (hrel : Follows allowed sight rel) (hrun : run.Heeds allowed sight rel)
    (ref : ProviderRef) :
    (ask run ref).Heeds allowed sight rel count fun n value =>
      sight.Shows n (value.toList.flatMap Value.holdings) := by
  have hyields {n : Nat} {value : Value} (hvalue : sight.Shows n value.holdings) :
      (pure (some value) : Effect (Option Value)).Heeds allowed sight rel n fun later value =>
        sight.Shows later (value.toList.flatMap Value.holdings) := by
    refine hrel.gives fun later hlater => ?_
    simpa using hvalue.mono hlater
  have hterm {n : Nat} {scope : Scope} (hscope : sight.Shows n scope.holdings) (term : ValueTerm) :
      Effect.Heeds allowed sight rel n (do return some (← term.evaluate scope))
        fun later value => sight.Shows later (value.toList.flatMap Value.holdings) :=
    hrel.bind (heeds_evaluate hrel hscope term) fun _ _ _ hvalue => hyields hvalue
  have hcalls : (modifyGet (·.noteCall ref) : Effect Nat).Stays allowed sight rel count :=
    hrel.makes fun world _ hinSight => ⟨hinSight.act_noteCall ref, trivial⟩
  refine hrel.bind hcalls fun n calls _ _ => ?_
  refine hrel.bind hrel.reads ?_
  rintro _ world - ⟨rfl, hworld⟩
  have hlines := hworld.confined.providers ref
  have hsource := hworld.inSight.source ref
  split
  · next value heq =>
    rw [heq] at hsource
    exact hyields hsource
  · next binding _ =>
    refine hrel.bind hrel.reads ?_
    rintro _ world - ⟨rfl, hworld⟩
    refine hrel.gives fun later hlater => ?_
    exact Sight.Shows.mono (hworld.inSight.kept (.binding binding) nofun) hlater
  · next label value scope heq =>
    rw [heq] at hsource
    have hcount : (modifyGet (·.countCall label) : Effect Nat).Stays allowed sight rel
        world.spaces.size :=
      hrel.makes fun world _ hinSight => ⟨hinSight.act_noted rfl rfl id fun _ => .inl, trivial⟩
    refine hrel.bind hcount fun n _ hn _ => ?_
    refine hrel.bind (hrel.reports _) fun later _ hlater _ => ?_
    split
    · exact hterm (hsource.mono (hn.trans hlater)) _
    · exact hyields Sight.shows_nil
  · next heq =>
    rw [heq] at hsource
    split
    · exact hterm hsource _
    · exact hrel.throws _
    · exact hyields Sight.shows_nil
  · exact hrel.throws _
  · next lines value scope heq =>
    rw [heq] at hlines hsource
    refine hrel.bind (hrun.lines "getter" hlines hsource) fun n _ hn _ => ?_
    exact hterm (hsource.mono hn) value

theorem heeds_slot_value (hrel : Follows allowed sight rel) (hrun : run.Heeds allowed sight rel)
    {slot : Slot} (hslot : sight.Shows count slot.holdings) :
    (slot.value? run).Heeds allowed sight rel count fun n value =>
      sight.Shows n (value.toList.flatMap Value.holdings) := by
  unfold Slot.value?
  split
  · next value _ hcached =>
    refine hrel.gives fun n hn => Sight.Shows.mono (fun ref hmem => hslot ref ?_) hn
    rw [Slot.holdings, hcached]
    exact List.mem_cons_of_mem _ hmem
  · exact heeds_ask hrel hrun _

/-- Slots yield values in sight. -/
theorem heeds_refreshSlots (hrel : Follows allowed sight rel) (hrun : run.Heeds allowed sight rel)
    (entry : EntryRef) {space : NamespaceRef} (hspace : sight.sees count space)
    {slots : List (String × Slot)} (hslots : sight.Shows count (slotHoldings slots)) :
    (refreshSlots run entry space slots).Heeds allowed sight rel count fun n values =>
      ∀ row ∈ values, sight.Shows n row.2.holdings := by
  induction slots generalizing count with
  | nil => exact hrel.gives fun _ _ _ h => absurd h List.not_mem_nil
  | cons row rest ih =>
    rw [slotHoldings, List.flatMap_cons] at hslots
    obtain ⟨hslot, hrest⟩ := Sight.shows_append.mp hslots
    refine hrel.bind (hrel.holds _ (heeds_slot_value hrel hrun hslot)) fun n value hn hvalue => ?_
    split
    · exact ih (hn _ hspace) (hrest.mono hn)
    · next value =>
      have hvalue : sight.Shows n value.holdings := by simpa using hvalue
      have hwrite : Effect.Heeds allowed sight rel n (do
          modify (·.setMember space row.1 value)
          let values ← Effect.holding value.holdings (refreshSlots run entry space rest)
          return (row.1, value) :: values) fun n values =>
            ∀ row ∈ values, sight.Shows n row.2.holdings := by
        refine hrel.bind (hrel.changes fun world hcount hinSight => ?_) fun later _ hlater _ => ?_
        · exact hinSight.act_setMember row.1 (hcount _ (hn _ hspace)) (hvalue.mono hcount)
        · have hrest := ih (hlater _ (hn _ hspace)) (hrest.mono (hn.trans hlater))
          refine hrel.bind (hrel.holds _ hrest) fun last values hlast hvalues => ?_
          refine hrel.gives fun end' hend => List.forall_mem_cons.mpr ⟨?_, fun row hrow => ?_⟩
          · exact hvalue.mono ((hlater.trans hlast).trans hend)
          · exact (hvalues row hrow).mono hend
      split
      · refine hrel.bind (hrel.changes fun world hcount hinSight => ?_) fun later _ hlater _ => ?_
        · exact hinSight.act_keepValue entry row.1 row.2.provider (hvalue.mono hcount)
        · exact hwrite.mono hlater
      · exact hwrite

/-- The current values of an entry are in sight. -/
theorem heeds_refresh (hrel : Follows allowed sight rel) (hrun : run.Heeds allowed sight rel)
    (entry : EntryRef) :
    (refresh run entry).Heeds allowed sight rel count fun n values =>
      ∀ row ∈ values, sight.Shows n row.2.holdings := by
  refine hrel.bind hrel.reads ?_
  rintro _ world - ⟨rfl, hworld⟩
  have hspace := hworld.inSight.entries entry
  dsimp only
  split
  · refine hrel.gives fun n hn row hrow => ?_
    rw [List.mem_singleton.mp hrow]
    exact Sight.shows_space.mpr (hn _ hspace)
  · exact hrel.holds _ (heeds_refreshSlots hrel hrun entry hspace (hworld.inSight.slots entry))

theorem stays_respond (hrel : Follows allowed sight rel) (hrun : run.Heeds allowed sight rel)
    {consumer : Consumer} (hlines : Program.Confined allowed consumer.lines)
    (hconsumer : sight.Shows count consumer.holdings) (name : String) {value : Value}
    (hvalue : sight.Shows count value.holdings) :
    (consumer.respond run name value).Stays allowed sight rel count := by
  cases consumer with
  | assign binding =>
    exact hrel.changes fun _ hcount hinSight => hinSight.act_setBinding _ (hvalue.mono hcount)
  | copyInto space =>
    refine hrel.changes fun _ hcount hinSight => ?_
    exact hinSight.act_setMember _ (hcount _ (Sight.shows_space.mp hconsumer)) (hvalue.mono hcount)
  | callback label lines scope =>
    have hscope : sight.Shows count
        (Scope.holdings { scope with received := some (value, name) }) := by
      simpa [Scope.holdings] using hvalue
    have hreported {n : Nat} (hn : sight.Lasts count n) : Effect.Stays allowed sight rel n
        (run { scope with received := some (value, name) } "setter" lines).reported := by
      refine hrel.bind (hrun.lines _ hlines (hscope.mono hn)).attempt fun _ outcome _ _ => ?_
      split
      · exact hrel.done
      · exact hrel.reports _
    cases label with
    | some label =>
      refine hrel.bind (stays_showValue hrel hvalue) fun n _ hn _ => ?_
      exact hrel.bind (hrel.reports _) fun _ _ hlater _ => hreported (hn.trans hlater)
    | none => exact hreported (.refl _ _)

/-- A consumer takes a value only while its batch is active, and none that it has taken last. -/
theorem stays_deliverTo (hrel : Follows allowed sight rel) (hrun : run.Heeds allowed sight rel)
    (batch : BatchRef) (name : String) {value : Value} (hvalue : sight.Shows count value.holdings)
    (slot : String) {consumer : Consumer} (hlines : Program.Confined allowed consumer.lines)
    (hconsumer : sight.Shows count consumer.holdings) :
    (deliverTo run batch name value slot consumer).Stays allowed sight rel count := by
  rw [deliverTo_eq]
  intro world hcount hworld
  refine hrel.bindIn (hrel.reads world hcount hworld) fun found after houtcome _ _ _ => ?_
  cases houtcome
  by_cases hactive : (world.batch batch).isActive = true
  · simp only [hactive, Bool.not_true, Bool.false_eq_true, if_false]
    split
    · exact hrel.givesIn hworld trivial
    · next hdiffers =>
      have hnew : ∀ last, world.seen? batch slot name = some last → value.same last = false := by
        intro last hlast
        rw [hlast] at hdiffers
        exact Bool.eq_false_iff.mpr hdiffers
      have hnoted : Act allowed sight world (world.handOver batch slot name value) :=
        hworld.inSight.act_handOver hactive hnew (hvalue.mono hcount)
      refine hrel.bindIn (hrel.changesIn hworld hnoted) fun _ after _ hlasts hafter _ => ?_
      have hreceived := stays_respond hrel hrun hlines hconsumer name hvalue
      exact hrel.bind hreceived (fun _ _ _ _ => hrel.done) after (hcount.trans hlasts) hafter
  · simp only [hactive, Bool.not_false, if_true]
    exact hrel.givesIn hworld trivial

theorem stays_deliverToAll (hrel : Follows allowed sight rel) (hrun : run.Heeds allowed sight rel)
    (batch : BatchRef) (name : String) {value : Value} (hvalue : sight.Shows count value.holdings)
    {concerned : List (String × Consumer)}
    (hconcerned : ∀ row ∈ concerned,
      Program.Confined allowed row.2.lines ∧ sight.Shows count row.2.holdings) :
    (deliverToAll run batch name value concerned).Stays allowed sight rel count := by
  induction concerned generalizing count with
  | nil => exact hrel.done
  | cons row rest ih =>
    obtain ⟨⟨hlines, hconsumer⟩, hrest⟩ := List.forall_mem_cons.mp hconcerned
    have hfirst := stays_deliverTo hrel hrun batch name hvalue row.1 hlines hconsumer
    refine hrel.bind hfirst fun n goesOn hn _ => ?_
    split
    · exact ih (hvalue.mono hn) fun row hrow => ⟨(hrest row hrow).1, (hrest row hrow).2.mono hn⟩
    · exact hrel.done

/-- Values are delivered only while their batch is active. -/
theorem stays_deliverValues (hrel : Follows allowed sight rel) (hrun : run.Heeds allowed sight rel)
    {batch : BatchRef} (hbatch : ¬ sight.hides batch) {values : List (String × Value)}
    (hvalues : ∀ row ∈ values, sight.Shows count row.2.holdings) :
    (deliverValues run batch values).Stays allowed sight rel count := by
  induction values generalizing count with
  | nil => exact hrel.done
  | cons row rest ih =>
    obtain ⟨hvalue, hrest⟩ := List.forall_mem_cons.mp hvalues
    intro world hcount hworld
    refine hrel.bindIn (hrel.reads world hcount hworld) fun found after houtcome _ _ _ => ?_
    cases houtcome
    split
    · next hactive =>
      have hwritten : Act allowed sight world (world.writeThrough batch row.1 row.2) :=
        hworld.inSight.act_writeThrough hactive hbatch (hvalue.mono hcount)
      have hconcerned : ∀ other ∈ (world.batch batch).concerned row.1,
          Program.Confined allowed other.2.lines ∧
            sight.Shows world.spaces.size other.2.holdings := by
        intro other hother
        obtain ⟨row, hrow, hsame⟩ := mem_rows_of_mem_concerned hother
        rw [← hsame]
        exact ⟨Consumer.confined_linesOf.mp (hworld.confined.consumers batch) row hrow,
          hworld.inSight.consumer hbatch hrow⟩
      have hdeliver : (deliver run batch row.1 row.2).HeedsIn allowed sight rel world
          fun _ _ => True := by
        refine hrel.bindIn (hrel.reads world hcount hworld) fun found after houtcome _ _ _ => ?_
        cases houtcome
        dsimp only
        split
        · exact hrel.givesIn hworld trivial
        · refine hrel.bindIn (hrel.changesIn hworld hwritten) fun _ after _ hlasts hafter _ => ?_
          exact stays_deliverToAll hrel hrun batch row.1 (hvalue.mono hcount) hconcerned after hlasts
            hafter
      refine hrel.bindIn hdeliver fun _ after _ hlasts hafter _ => ?_
      exact ih hrest after (hcount.trans hlasts) hafter
    · exact hrel.givesIn hworld trivial

theorem stays_deliverToBatches (hrel : Follows allowed sight rel) (hrun : run.Heeds allowed sight rel)
    {batches : List BatchRef} (hbatches : ∀ batch ∈ batches, ¬ sight.hides batch)
    {values : List (String × Value)} (hvalues : ∀ row ∈ values, sight.Shows count row.2.holdings) :
    (deliverToBatches run values batches).Stays allowed sight rel count := by
  induction batches generalizing count with
  | nil => exact hrel.done
  | cons batch rest ih =>
    obtain ⟨hbatch, hrest⟩ := List.forall_mem_cons.mp hbatches
    refine hrel.bind (hrel.holds _ (stays_deliverValues hrel hrun hbatch hvalues)) fun n _ hn _ => ?_
    exact ih hrest fun row hrow => (hvalues row hrow).mono hn


theorem stays_propagate (hrel : Follows allowed sight rel) (hrun : run.Heeds allowed sight rel)
    (hopen : ∀ batch, ¬ sight.hides batch) (entry : EntryRef) :
    (propagate run entry).Stays allowed sight rel count := by
  refine hrel.bind (heeds_refresh hrel hrun entry) fun n values hn hvalues => ?_
  refine hrel.bind hrel.reads fun _ world hlater _ => ?_
  refine hrel.holds _ (stays_deliverToBatches hrel hrun (fun batch _ => hopen batch) ?_)
  exact fun row hrow => (hvalues row hrow).mono hlater

end

/-! ### Linking -/

section

variable {allowed : Command → Prop} {sight : Sight} {rel : World → World → Prop} {run : Runner}
  {count : Nat} (hrel : Follows allowed sight rel) (hrun : run.Heeds allowed sight rel)

include hrel hrun

/-- The host has confined bodies only. -/
theorem heeds_load (id : String) : (load run id).Heeds allowed sight rel count sight.sees := by
  intro world hcount hworld
  refine hrel.bindIn (hrel.reads world hcount hworld) fun found after houtcome _ _ _ => ?_
  cases houtcome
  split
  · exact hrel.givesIn hworld (hworld.inSight.exports _)
  · split
    · exact hrel.fails _ world hcount hworld
    · have hbody : ∀ body, world.host.bodies.get? id = some body →
          Program.Confined allowed body := by
        intro body hbody
        obtain ⟨row, hrow, rfl⟩ := Option.map_eq_some_iff.mp hbody
        exact hworld.confined.bodies row (List.mem_of_find?_eq_some hrow)
      have hfinds : (bound id (world.host.bodies.get? id)).HeedsIn allowed sight rel world
          fun _ body => Program.Confined allowed body :=
        hrel.finds id (fun _ body _ => hbody body) world hcount hworld
      refine hrel.bindIn hfinds fun body after _ _ hafter hbody => ?_
      have hnew : Act allowed sight after (after.newModule id true).2 :=
        hafter.inSight.act_newModule id true
      have hmade : (modifyGet (·.newModule id true) : Effect ModuleRef).HeedsIn allowed sight rel after
          fun _ _ => True := ⟨hrel.act hnew, hnew.fits hafter, fun _ _ => trivial⟩
      refine hrel.bindIn hmade fun module made houtcome _ hmade _ => ?_
      have hspaces : 0 < made.spaces.size := by
        rw [← show (after.newModule id true).2 = made from congrArg Prod.snd houtcome]
        exact Nat.lt_of_lt_of_eq (Nat.succ_pos _) (Store.size_add ..).symm
      have hloaded : (modify (·.updateNames fun names => { names with
          modules := names.modules.put id module, loaded := names.loaded.put id module }) :
          Effect Unit).HeedsIn allowed sight rel made fun _ _ => True :=
        hrel.changesIn hmade (hmade.inSight.act_noteLoaded hspaces id module)
      refine hrel.bindIn hloaded fun _ later _ _ hlater _ => ?_
      have hbody : Effect.Stays allowed sight rel later.spaces.size
          (run { current := some id } id body) := hrun.lines id hbody Sight.shows_nil
      refine hrel.bind (hrel.holds _ hbody) (fun _ _ _ _ => hrel.bind hrel.reads ?_) later (.refl _ _)
        hlater
      rintro _ world - ⟨rfl, hworld⟩
      exact hrel.gives fun _ hn => hn _ (hworld.inSight.exports _)

/-- The exports of a module that is requested are in sight. -/
theorem heeds_request (module : ModuleRef) (specifier : String) :
    (request run module specifier).Heeds allowed sight rel count sight.sees := by
  refine hrel.bind hrel.reads fun n world _ _ => ?_
  dsimp only
  split
  · have hfails : Effect.Stays allowed sight rel n
        (Effect.fail (.notEnabled (world.module module).id) : Effect PUnit) := hrel.fails _
    refine hrel.bind hfails fun _ _ _ _ => ?_
    split
    · exact heeds_load hrel hrun _
    · exact hrel.fails _
  · split
    · exact heeds_load hrel hrun _
    · exact hrel.fails _

end

section

variable {allowed : Command → Prop} {sight : Sight} {rel : World → World → Prop} {run : Runner}
  {count : Nat} (hrel : Follows allowed sight rel) (hopen : ∀ batch, ¬ sight.hides batch)

include hrel hopen

theorem stays_subscribe (module : ModuleRef) {space : NamespaceRef}
    (hspace : sight.sees count space) {registration : Registration}
    (hregistration : registration.Fits allowed sight count) :
    (subscribe module space registration).Stays allowed sight rel count := by
  refine hrel.bind (stays_claimExports hrel module) fun n _ hn _ => ?_
  split
  · next consumers hconsumers =>
    obtain ⟨hlines, hkept, hspaces⟩ := hregistration.mono hn
    rw [Registration.lines, hconsumers] at hlines
    rw [hconsumers] at hkept
    have hmade : (modifyGet (·.entryFor space) : Effect EntryRef).Stays allowed sight rel n :=
      hrel.makes fun _ hcount hinSight => ⟨hinSight.act_entryFor (hcount _ (hn _ hspace)), trivial⟩
    refine hrel.bind hmade fun later entry hlater _ => ?_
    refine hrel.changes fun world hcount hinSight => ?_
    refine hinSight.act_addConsumers entry module registration.key hlines (fun batch _ => hopen batch)
      fun _ => ⟨fun row hrow => ?_, fun ref href => ?_⟩
    · exact (hkept row hrow).mono (hlater.trans hcount)
    · exact hcount _ (hlater _ (hspaces ref href))
  · exact hrel.done

variable (hrun : run.Heeds allowed sight rel)

include hrun

theorem stays_propagateHeld (entry : EntryRef) :
    (propagateHeld run entry).Stays allowed sight rel count :=
  hrel.holds _ (stays_propagate hrel hrun hopen entry)

theorem stays_propagateFrom (space : NamespaceRef) :
    (propagateFrom run space).Stays allowed sight rel count := by
  refine hrel.bind hrel.reads fun _ world _ _ => ?_
  split
  · exact hrel.holds _ (stays_propagateHeld hrel hopen hrun _)
  · exact hrel.done

theorem stays_provide (module : ModuleRef) (providers : Table ProviderRef) (isConstant : Bool) :
    (provide run module providers isConstant).Stays allowed sight rel count := by
  refine hrel.bind (stays_claimExports hrel module) fun n entry _ _ => ?_
  have hadded : (modify (·.addProviders entry providers isConstant) : Effect Unit).Stays allowed sight
      rel n := hrel.changes fun _ _ hinSight => hinSight.act_addProviders entry providers isConstant
  refine hrel.bind hadded fun _ _ _ _ => hrel.bind hrel.reads fun _ world _ _ => ?_
  split
  · exact stays_propagateHeld hrel hopen hrun entry
  · exact hrel.done

theorem stays_provideDefault (module : ModuleRef) {value : Value}
    (hvalue : sight.Shows count value.holdings) :
    (provideDefault run module value).Stays allowed sight rel count := by
  have hnew : (modifyGet (·.newProvider (.value value)) : Effect ProviderRef).Stays allowed sight rel
      count :=
    hrel.makes fun _ hcount hinSight =>
      ⟨hinSight.act_newProvider Program.confined_nil (hvalue.mono hcount), trivial⟩
  exact hrel.bind hnew fun _ _ _ _ => stays_provide hrel hopen hrun _ _ _

theorem stays_importNow (module : ModuleRef) (specifier : String) {registration : Registration}
    (hregistration : registration.Fits allowed sight count) :
    (importNow run module specifier registration).Stays allowed sight rel count := by
  refine hrel.bind (hrel.holds _ (heeds_request hrel hrun module specifier)) fun n exports hn hsees => ?_
  have hsubscribed := stays_subscribe hrel hopen module hsees (hregistration.mono hn)
  exact hrel.bind hsubscribed fun _ _ _ _ => stays_propagateFrom hrel hopen hrun exports

/-- A new namespace is in sight, and so is what a dynamic import registers for it. -/
theorem heeds_importNamespace (module : ModuleRef) (specifier : String) :
    (importNamespace run module specifier).Heeds allowed sight rel count sight.sees := by
  refine hrel.bind (heeds_request hrel hrun module specifier) fun n exports hn hexports => ?_
  refine hrel.bind (heeds_newSpace hrel true) fun later space hlater hspace => ?_
  have hregistration : Registration.Fits allowed sight later
      { consumers := some (Table.ofList [(everyName, Consumer.copyInto space)])
        key := none, spaces := [space] } := by
    refine ⟨Program.confined_nil, fun row hrow => ?_, fun ref href => ?_⟩
    · rw [List.mem_singleton.mp hrow]
      exact Sight.shows_space.mpr hspace
    · exact List.mem_singleton.mp href ▸ hspace
  have hsubscribed := stays_subscribe hrel hopen module (hlater _ hexports) hregistration
  refine hrel.bind hsubscribed fun last _ hlast _ => ?_
  refine hrel.bind (hrel.holds _ (stays_propagateFrom hrel hopen hrun exports)) fun _ _ hend _ => ?_
  exact hrel.gives fun _ hn => hn _ (hend _ (hlast _ hspace))

theorem heeds_poll (ref : ImportRef) :
    (poll run ref).Heeds allowed sight rel count fun n found =>
      ∀ space, found = some space → sight.sees n space := by
  refine hrel.bind hrel.reads fun n world _ _ => ?_
  dsimp only
  split
  · have hdeferred : (modify (·.deferImport ref) : Effect Unit).Stays allowed sight rel n :=
      hrel.changes fun _ _ hinSight => hinSight.act_deferImport ref
    exact hrel.bind hdeferred fun _ _ _ _ => hrel.gives fun _ _ _ h => absurd h nofun
  · refine hrel.bind (heeds_importNamespace hrel hopen hrun _ _) fun _ _ _ hspace => ?_
    exact hrel.gives fun _ hn _ heq => Option.some.inj heq ▸ hn _ hspace

/-- An entry is marked only when everything that `Completing` asks for is the case. -/
theorem stays_propagateExports (module : ModuleRef) :
    (propagateExports run module).Stays allowed sight rel count := by
  intro called hcount hcalled
  refine hrel.bindIn (hrel.reads called hcount hcalled) fun found after houtcome _ _ _ => ?_
  cases houtcome
  have hexports := hcalled.inSight.exports module
  obtain ⟨hround, hrounded, -⟩ :=
    stays_propagateFrom hrel hopen hrun (called.module module).exports called hcount hcalled
  unfold HeedsIn
  rw [outcome_bind]
  rcases houtcome : (propagateFrom run (called.module module).exports).outcome called with
    ⟨fault | ⟨⟩, rounded⟩ <;> rw [houtcome] at hround hrounded
  · exact ⟨hround, hrounded, nofun⟩
  · simp only [outcome_bind, outcome_get]
    by_cases hloaded : (rounded.module module).isLoaded = true
    · simp only [hloaded, if_true, outcome_bind, outcome_modifyGet, outcome_get]
      obtain ⟨howned, hclaimed, -⟩ := stays_ownedEntryFor hrel hexports module rounded
        (hrel.lasts hround) hrounded
      rw [outcome_modifyGet] at howned hclaimed
      rcases hentry : rounded.ownedEntryFor (called.module module).exports module with
        ⟨entry, world⟩
      rw [hentry] at howned hclaimed
      by_cases howner : (world.entry entry).owner = some module
      · have hcompleting : Completing run module called rounded entry world :=
          ⟨houtcome, hloaded, hentry, howner⟩
        simp only [howner, beq_self_eq_true, if_true, outcome_modify]
        have hmarked := hrun.completed hcompleting hround (hrel.trans hround howned) hclaimed.inSight
        refine ⟨hmarked, ⟨?_, ?_⟩, fun _ _ => trivial⟩
        · exact hclaimed.confined.of_parts rfl rfl rfl
        · exact hclaimed.inSight.markLoaded entry
      · have howner' : ((world.entry entry).owner == some module) = false := by
          simpa using howner
        simp only [howner', Bool.false_eq_true, if_false]
        exact ⟨hrel.trans hround howned, hclaimed, fun _ _ => trivial⟩
    · simp only [hloaded, Bool.false_eq_true, if_false]
      exact ⟨hround, hrounded, fun _ _ => trivial⟩

theorem stays_evaluate (module : ModuleRef) {body : Effect Unit}
    (hbody : ∀ n, sight.Lasts count n → body.Stays allowed sight rel n) :
    (evaluate run module body).Stays allowed sight rel count := by
  refine hrel.bind (stays_claimExports hrel module) fun n _ hn _ => ?_
  refine hrel.bind (hbody n hn) fun later _ _ _ => ?_
  have hloaded : (modify (·.setLoaded module true) : Effect Unit).Stays allowed sight rel later :=
    hrel.changes fun _ _ hinSight => hinSight.act_setLoaded module true
  exact hrel.bind hloaded fun _ _ _ _ => stays_propagateExports hrel hopen hrun module

/-! ### Commands -/

omit hopen in
theorem heeds_refreshKept (entry : EntryRef) :
    (refreshKept run entry).Heeds allowed sight rel count fun n values =>
      ∀ row ∈ values, sight.Shows n row.2.holdings := by
  refine hrel.bind hrel.reads fun _ world _ _ => ?_
  split
  · exact heeds_refresh hrel hrun entry
  · exact hrel.gives fun _ _ _ h => absurd h List.not_mem_nil

theorem stays_propagateKept (entry : EntryRef) :
    (propagateKept run entry).Stays allowed sight rel count := by
  refine hrel.bind hrel.reads fun _ world _ _ => ?_
  split
  · exact stays_propagate hrel hrun hopen entry
  · exact hrel.done

theorem stays_pollNamed (name : String) : (pollNamed run name).Stays allowed sight rel count := by
  refine hrel.bind hrel.reads fun n world _ _ => ?_
  have hfinds : Effect.Stays allowed sight rel n (bound name (world.names.imports.get? name)) :=
    hrel.finds name fun _ _ _ _ => trivial
  refine hrel.bind hfinds fun _ pending _ _ => ?_
  refine hrel.bind hrel.reads fun _ world _ _ => ?_
  refine hrel.bind (hrel.holds _ (heeds_poll hrel hopen hrun pending)) fun _ found _ hfound => ?_
  split
  · exact hrel.bind hrel.reads fun _ _ _ _ => hrel.done
  · next space =>
    have hspace := hfound space rfl
    refine hrel.bind (hrel.changes fun _ hcount hinSight => ?_) fun _ _ hn _ => ?_
    · exact hinSight.act_nameSpace name (hcount _ hspace)
    · refine hrel.bind (stays_nameOfSpace hrel (hn _ hspace)) fun _ _ _ _ => ?_
      exact hrel.bind hrel.reads fun _ _ _ _ => hrel.done

/-- Every command heeds a sight that hides nothing, if the callbacks that it runs do. -/
theorem stays_perform {scope : Scope} (hscope : sight.Shows count scope.holdings) {command : Command}
    (hcommand : command.Confined allowed) :
    (perform run scope command).Stays allowed sight rel count := by
  obtain ⟨-, hlines⟩ := Command.confined_iff.mp hcommand
  cases command with
  | provide name terms isConstant =>
    refine stays_withModule hrel scope name fun n module hn => ?_
    refine hrel.bind (stays_newProviders hrel (hscope.mono hn) hlines) fun _ _ _ _ => hrel.silent ?_
    exact stays_provide hrel hopen hrun _ _ _
  | provideDefault name term =>
    refine stays_withModule hrel scope name fun n module hn => ?_
    refine hrel.bind (heeds_evaluate hrel (hscope.mono hn) term) fun _ _ _ hvalue => hrel.silent ?_
    exact stays_provideDefault hrel hopen hrun _ hvalue
  | watch name term subscription =>
    refine stays_withModule hrel scope name fun n module hn => ?_
    refine hrel.bind (heeds_find hrel term) fun later space hlater hspace => ?_
    refine hrel.bind (heeds_subscription hrel (hscope.mono (hn.trans hlater)) hlines)
      fun _ _ hlast hregistration => hrel.silent ?_
    exact stays_subscribe hrel hopen _ (hlast _ hspace) hregistration
  | importNow name specifier subscription =>
    refine stays_withModule hrel scope name fun n module hn => ?_
    refine hrel.bind (heeds_subscription hrel (hscope.mono hn) hlines)
      fun _ _ _ hregistration => hrel.silent ?_
    exact stays_importNow hrel hopen hrun _ _ hregistration
  | poll name => exact stays_pollNamed hrel hopen hrun name
  | evaluate name lines =>
    refine stays_withModule hrel scope name fun n module hn => hrel.silent ?_
    refine stays_evaluate hrel hopen hrun module fun later hlater => ?_
    exact hrun.lines _ hlines (hscope.mono (hn.trans hlater))
  | propagate name term =>
    refine stays_withModule hrel scope name fun n module hn => ?_
    refine hrel.bind (heeds_evaluate hrel (hscope.mono hn) term) fun _ value _ hvalue => ?_
    refine hrel.bind (hrel.holds _ (stays_propagateExports hrel hopen hrun module)) fun _ _ hlast _ => ?_
    exact hrel.bind (stays_showValue hrel (hvalue.mono hlast)) fun _ _ _ _ => hrel.done
  | addProviders term terms isConstant =>
    refine stays_withEntry hrel term fun n entry hn => ?_
    refine hrel.bind (stays_newProviders hrel (hscope.mono hn) hlines) fun _ _ _ _ => hrel.silent ?_
    exact hrel.changes fun _ _ hinSight => hinSight.act_addProviders entry _ isConstant
  | addConsumers term name subscription =>
    refine stays_withEntry hrel term fun n entry hn => ?_
    refine stays_withModule hrel scope name fun later module hlater => ?_
    refine hrel.bind (heeds_subscription hrel (hscope.mono (hn.trans hlater)) hlines)
      fun last registration hlast hregistration => hrel.silent ?_
    refine hrel.changes fun world hcount hinSight => ?_
    obtain ⟨hconfined, hkept, hspaces⟩ := hregistration.mono hcount
    exact hinSight.act_addConsumers entry module registration.key hconfined
      (fun batch _ => hopen batch) fun _ => ⟨hkept, hspaces⟩
  | refresh term =>
    refine stays_withEntry hrel term fun n entry hn => ?_
    refine hrel.bind (heeds_refreshKept hrel hrun entry) fun _ _ _ hvalues => ?_
    exact hrel.bind (stays_showValues hrel hvalues) fun _ _ _ _ => hrel.done
  | deliver term =>
    refine stays_withEntry hrel term fun n entry hn => hrel.silent ?_
    exact stays_propagateKept hrel hopen hrun entry
  | _ => exact stays_perform_outside hrel run hscope hcommand rfl

/-- Programs heed a sight that hides nothing, if the callbacks that they run do. -/
theorem stays_runLines {scope : Scope} (hscope : sight.Shows count scope.holdings) (label : String)
    {program : Program} (hprogram : Program.Confined allowed program) :
    (runLines run scope label program).Stays allowed sight rel count := by
  induction program generalizing count with
  | nil => exact hrel.done
  | cons line rest ih =>
    obtain ⟨hline, hrest⟩ := Program.confined_cons.mp hprogram
    refine hrel.bind (stays_perform hrel hopen hrun hscope hline).attempt fun n outcome hn _ => ?_
    refine hrel.bind (hrel.reports _) fun later _ hlater _ => ?_
    have hgoesOn := ih (hscope.mono (hn.trans hlater)) hrest
    split
    · exact hgoesOn
    · split
      · exact hgoesOn
      · exact hrel.fails _

end

/-- All programs heed a sight that hides nothing, however deep callbacks are nested, if the relation has
the end of every call that shows a module's values. -/
theorem heeds_runner {allowed : Command → Prop} {sight : Sight} {rel : World → World → Prop}
    (hrel : Follows allowed sight rel) (hopen : ∀ batch, ¬ sight.hides batch)
    (hcompleted : ∀ (depth : Nat) {module : ModuleRef} {called rounded : World} {entry : EntryRef}
      {world : World}, Completing (runner depth) module called rounded entry world →
        rel called rounded → rel called world → world.InSight sight →
          rel called (world.markLoaded entry)) (depth : Nat) :
    (runner depth).Heeds allowed sight rel := by
  induction depth with
  | zero => exact ⟨fun _ _ _ _ => hrel.throws _, hcompleted 0⟩
  | succ depth ih =>
    exact ⟨fun label _ hlines hscope => stays_runLines hrel hopen ih hscope label hlines,
      hcompleted (depth + 1)⟩

/-! ### Moves alone -/

/-- A relation between worlds that contains every move and what moves come to together. -/
structure Admits (allowed : Command → Prop) (rel : World → World → Prop) : Prop where
  refl : ∀ world, rel world world
  trans : ∀ {first second third}, rel first second → rel second third → rel first third
  move : ∀ {world after}, Move allowed world after → rel world after

/-- From a confined world an effect leads to a confined one that is related to it, and a value that it
gives satisfies `post`. -/
def Effect.Gives {α : Type} (allowed : Command → Prop) (rel : World → World → Prop) (action : Effect α)
    (post : α → Prop) : Prop :=
  ∀ world, world.Confined allowed →
    rel world (action.outcome world).2 ∧ (action.outcome world).2.Confined allowed ∧
      ∀ value, (action.outcome world).1 = .ok value → post value

/-- From a confined world an effect leads to a confined one that is related to it. -/
abbrev Effect.Within {α : Type} (allowed : Command → Prop) (rel : World → World → Prop)
    (action : Effect α) : Prop :=
  action.Gives allowed rel fun _ => True

/-- What is asked of the programs that callbacks run. -/
structure Runner.Within (allowed : Command → Prop) (rel : World → World → Prop) (run : Runner) :
    Prop where
  lines : ∀ (scope : Scope) (label : String) {lines : Program}, Program.Confined allowed lines →
    (run scope label lines).Within allowed rel
  completed : ∀ {module : ModuleRef} {called rounded : World} {entry : EntryRef} {world : World},
    Completing run module called rounded entry world → rel called rounded →
      rel called (world.markLoaded entry)

section

variable {α : Type} {allowed : Command → Prop} {rel : World → World → Prop} {run : Runner}

/-- Where everything is in sight, a relation follows acts if it admits moves. -/
theorem Admits.follows (hrel : Admits allowed rel) : Follows allowed Sight.all rel where
  refl := hrel.refl
  trans := hrel.trans
  act h := hrel.move h.move
  lasts _ _ _ := trivial

theorem Effect.gives_iff {action : Effect α} {post : α → Prop} :
    action.Gives allowed rel post ↔ action.Heeds allowed Sight.all rel 0 fun _ => post := by
  constructor
  · intro h world _ hworld
    obtain ⟨hafter, hconfined, hpost⟩ := h world hworld.confined
    exact ⟨hafter, ⟨hconfined, World.inSight_all _⟩, hpost⟩
  · intro h world hworld
    obtain ⟨hafter, hfits, hpost⟩ := h world (fun _ _ => trivial) ⟨hworld, world.inSight_all⟩
    exact ⟨hafter, hfits.confined, hpost⟩

theorem Runner.Within.heeds (h : run.Within allowed rel) : run.Heeds allowed Sight.all rel where
  lines label _ hlines _ := (gives_iff.mp (h.lines _ label hlines)).mono fun _ _ => trivial
  completed hcompleting hround _ _ := h.completed hcompleting hround

namespace Admits

theorem throws (hrel : Admits allowed rel) {post : α → Prop} (fault : Fault) :
    (throw fault : Effect α).Gives allowed rel post :=
  gives_iff.mpr (hrel.follows.throws fault)

theorem holds (hrel : Admits allowed rel) {action : Effect α} {post : α → Prop}
    (things : List Holding) (h : action.Gives allowed rel post) :
    (holding things action).Gives allowed rel post :=
  gives_iff.mpr (hrel.follows.holds things (gives_iff.mp h))

end Admits

variable (hrel : Admits allowed rel) (hrun : run.Within allowed rel)

include hrel hrun

theorem within_refreshSlots (entry : EntryRef) (space : NamespaceRef) (slots : List (String × Slot)) :
    (refreshSlots run entry space slots).Within allowed rel :=
  gives_iff.mpr (heeds_refreshSlots hrel.follows hrun.heeds entry
    trivial (Sight.shows_all _ _)).stays

theorem within_deliverToBatches (values : List (String × Value)) (batches : List BatchRef) :
    (deliverToBatches run values batches).Within allowed rel :=
  gives_iff.mpr (stays_deliverToBatches hrel.follows hrun.heeds
    (fun _ _ => id) fun _ _ => Sight.shows_all _ _)

theorem within_request (module : ModuleRef) (specifier : String) :
    (request run module specifier).Within allowed rel :=
  gives_iff.mpr (heeds_request hrel.follows hrun.heeds module
    specifier).stays

/-- Every command stays within the relation, if the callbacks that it runs do. -/
theorem within_perform (scope : Scope) {command : Command} (hcommand : command.Confined allowed) :
    (perform run scope command).Within allowed rel :=
  gives_iff.mpr (stays_perform hrel.follows (fun _ => id) hrun.heeds
    (Sight.shows_all _ _) hcommand)

/-- Programs stay within the relation, if the callbacks that they run do. -/
theorem within_runLines (scope : Scope) (label : String) {program : Program}
    (hprogram : Program.Confined allowed program) :
    (runLines run scope label program).Within allowed rel :=
  gives_iff.mpr (stays_runLines hrel.follows (fun _ => id) hrun.heeds
    (Sight.shows_all _ _) label hprogram)

omit hrun in
/-- All programs stay within the relation, however deep callbacks are nested, if the relation has
the end of every call that shows a module's values. -/
theorem within_runner
    (hcompleted : ∀ (depth : Nat) {module : ModuleRef} {called rounded : World} {entry : EntryRef}
      {world : World}, Completing (runner depth) module called rounded entry world →
        rel called rounded → rel called (world.markLoaded entry)) (depth : Nat) :
    (runner depth).Within allowed rel where
  lines _ label _ hlines :=
    have hrun := heeds_runner hrel.follows (fun _ => id)
      (fun depth _ _ _ _ _ hcompleting hround _ _ => hcompleted depth hcompleting hround) depth
    gives_iff.mpr (hrun.lines label hlines (Sight.shows_all 0 _))
  completed := hcompleted depth

end

end ModuleLinkage.Ledger
