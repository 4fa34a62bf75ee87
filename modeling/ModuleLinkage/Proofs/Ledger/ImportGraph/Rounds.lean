import ModuleLinkage.Proofs.Ledger.Commands
import ModuleLinkage.Proofs.Ledger.ImportGraph.Drift

/-!
# Rounds over the modules of an import graph

A round over a module of a graph leaves every copy of the module's exported names with the current
value (`ImportGraph.meets_propagate`). The rounds that it sets off are over modules of lower rank, so
that a round ends if callbacks may be nested deeper than the rank of its module, and they change
neither what the module exports nor what its own batches have seen.
-/

set_option autoImplicit false

namespace ModuleLinkage.Ledger

namespace ImportGraph

/-- What a round over a module does to the world. -/
structure Rounded (graph : ImportGraph) (shape : ModuleShape) (busy : BatchRef → String → Prop)
    (before after : World) : Prop where
  drift : graph.Drift (graph.rank shape.id) busy before after
  shown : ∀ {name target copy}, (name, target) ∈ shape.exports →
    before.CopyOf shape.id name copy → before.IsUnset copy name target →
      after.IsCurrent copy name target

theorem Rounded.alike_left {graph : ImportGraph} {shape : ModuleShape}
    {busy : BatchRef → String → Prop} {first second third : World} (h : first.Alike second)
    (h' : graph.Rounded shape busy second third) : graph.Rounded shape busy first third where
  drift := (Drift.of_alike h).trans h'.drift
  shown hexport hcopy hunset := by
    refine h'.shown hexport (h.copyOf_iff.mpr hcopy) fun hnone => ?_
    rw [h.content] at hnone
    rw [h.copy, hunset hnone]

theorem Rounded.alike_right {graph : ImportGraph} {shape : ModuleShape}
    {busy : BatchRef → String → Prop} {first second third : World}
    (h : graph.Rounded shape busy first second) (h' : second.Alike third) :
    graph.Rounded shape busy first third where
  drift := h.drift.trans (.of_alike h')
  shown hexport hcopy hunset := by
    unfold World.IsCurrent
    rw [h'.copy, h'.content, h.shown hexport hcopy hunset]

/-- Rounds over the modules whose rank is less than `bound`, run by `run`, do what they should. -/
def RoundsMeet (graph : ImportGraph) (run : Runner) (bound : Nat) (allowed : Fault → Prop) : Prop :=
  ∀ busy ⦃shape place world⦄, shape ∈ graph.modules → graph.rank shape.id < bound →
    graph.Wired world → world.Places shape.id place →
      (propagate run place.entry).Meets world (fun _ after => graph.Rounded shape busy world after)
        allowed

section

variable {graph : ImportGraph} {run : Runner} {scope : Scope} {label : String}
  {allowed : Fault → Prop} {busy : BatchRef → String → Prop} {world : World}

/-- The command that shows the values of a module does what a round over it does. -/
theorem RoundsMeet.meets_perform {bound : Nat} (hrounds : graph.RoundsMeet run bound allowed)
    (busy : BatchRef → String → Prop)
    (hwired : graph.Wired world) {shape : ModuleShape} {place : Place}
    (hshape : shape ∈ graph.modules) (hrank : graph.rank shape.id < bound)
    (hplace : world.Places shape.id place) (hscope : scope.current = some shape.id)
    {term : ValueTerm} (hterm : ∀ start, world.Alike start →
      (term.evaluate scope).Meets start (fun _ after => start.Alike after) allowed) :
    (perform run scope (.propagate none term)).Meets world
      (fun _ after => graph.Rounded shape busy world after) allowed := by
  have hentry : (world.space (world.module place.module).exports).entry = some place.entry := by
    rw [hplace.exports, hplace.entryOf]
  refine meets_perform_propagate hscope hplace.named hentry hterm fun start hstart => ?_
  have hround := hrounds busy hshape hrank (hwired.keeps hstart.toKeeps)
    (hstart.places_iff.mpr hplace)
  refine hround.weaken fun _ after hafter => ⟨hafter.drift.toKeeps, fun last hlast => ?_⟩
  exact (hafter.alike_left hstart).alike_right hlast

/-! ### The lines of a callback -/

/-- The lines that put a received value into one local. -/
theorem meets_feedLines (busy : BatchRef → String → Prop) {shape : ModuleShape} {imp : Import}
    {name target : String}
    {batch : BatchRef} {value : Value} {place : Place} (hgraph : graph.WellFormed)
    (hrounds : graph.RoundsMeet run (graph.rank imp.source) allowed)
    (hwired : graph.Wired world) (hplace : world.Places shape.id place)
    (hfeeds : graph.Feeds shape imp name target) (hsubscribed : world.Subscribed shape imp batch)
    (hbusy : busy batch name) (hscope : scope.current = some shape.id)
    (hreceived : scope.received = some (value, name)) :
    (runLines run scope label (shape.feedLines target)).Meets world
      (fun _ after => graph.Drift (graph.rank imp.source) busy world after ∧
        after.content target = some value ∧
          ∀ other, graph.Feeds shape imp name other → other ≠ target →
            after.content other = world.content other) allowed := by
  have hterm (start : World) :
      (ValueTerm.receivedValue.evaluate scope).Meets start
        (fun received after => start.Alike after ∧ value = received) allowed := by
    simp only [ValueTerm.evaluate, hreceived, Option.map_some, Effect.meets_bound_some, and_true]
    exact .refl start
  rw [ModuleShape.feedLines, meets_runLines_cons (Command.goesOn_line _)]
  refine meets_perform_setBinding (value = ·) (fun start _ => hterm start) ?_
  rintro middle ref _ hmiddle hname rfl
  have hwiredMiddle := hwired.keeps hmiddle.toKeeps
  have hsubscribedMiddle := hmiddle.subscribed_iff.mpr hsubscribed
  have hset := World.content_setBinding hwiredMiddle.namesValid hname value
  have hevent := World.alike_addEvent (middle.setBinding ref value)
    (.ran label (Command.setBinding target .receivedValue).line.name (.ok .done))
  -- What comes after the assignment changes no local of the same delivery.
  have hrest {after : World} {lower : Nat}
      (hdrift : graph.Drift lower busy (middle.setBinding ref value) after)
      (hlower : lower ≤ graph.rank imp.source)
      (hkept : ∀ other, graph.Feeds shape imp name other →
        after.content other = (middle.setBinding ref value).content other)
      (hshown : ∀ row ∈ shape.exports, row.2 = target → ∀ copy,
        middle.CopyOf shape.id row.1 copy → after.IsCurrent copy row.1 target) :
      graph.Drift (graph.rank imp.source) busy world after ∧
        after.content target = some value ∧
          ∀ other, graph.Feeds shape imp name other → other ≠ target →
            after.content other = world.content other := by
    have hcontent : after.content target = some value := by
      rw [hkept target hfeeds, hset, if_pos rfl]
    refine ⟨(Drift.of_alike hmiddle).trans ?_, hcontent, fun other hother hne => ?_⟩
    · exact drift_feed hgraph hwiredMiddle hfeeds hsubscribedMiddle hbusy hname hlower hdrift
        hcontent hshown
    · rw [hkept other hother, hset, if_neg hne, hmiddle.content]
  by_cases hexported : shape.exportsTarget target = true
  · rw [if_pos hexported, meets_runLines_cons (Command.goesOn_line _)]
    have hkeeps := hmiddle.toKeeps.trans
      ((middle.keeps_setBinding ref value).trans hevent.toKeeps)
    have hrank := rank_lt_of_feeds hgraph hfeeds hexported
    refine (hrounds.meets_perform busy (hwired.keeps hkeeps) hfeeds.shape_mem hrank
      (hkeeps.places_iff.mpr hplace) hscope fun start _ =>
        (hterm start).weaken fun _ _ h => h.1).weaken fun answer after hafter => ?_
    have hrounded := (hafter.alike_left hevent).alike_right (World.alike_addEvent after
      (.ran label (Command.propagate none .receivedValue).line.name (.ok answer)))
    rw [meets_runLines_nil]
    refine hrest hrounded.drift (Nat.le_of_lt hrank) ?_ ?_
    · intro other hother
      refine hrounded.drift.content fun shape' imp' name' batch' hfeeds' _ => ?_
      obtain ⟨rfl, rfl, rfl⟩ := hgraph.fedOnce hother hfeeds'
      exact hrank
    · rintro ⟨exported, _⟩ hexport rfl copy hcopy
      refine hrounded.shown hexport ((middle.keeps_setBinding ref value).copyOf_iff.mpr hcopy) ?_
      intro hnone
      rw [hset, if_pos rfl] at hnone
      cases hnone
  · rw [if_neg hexported, meets_runLines_nil]
    refine hrest (.of_alike hevent) (Nat.le_refl _) (fun other _ => hevent.content other) ?_
    rintro row hexport rfl
    exact absurd (exportsTarget_of_mem hexport) hexported

/-- The lines that put a received value into several locals leave it in all of them. -/
theorem meets_flatMap_feedLines (busy : BatchRef → String → Prop) {shape : ModuleShape} {imp : Import}
    {name : String}
    {batch : BatchRef} {value : Value} {place : Place} (hgraph : graph.WellFormed)
    (hrounds : graph.RoundsMeet run (graph.rank imp.source) allowed) {targets : List String}
    (hwired : graph.Wired world) (hplace : world.Places shape.id place)
    (hfeeds : ∀ target ∈ targets, graph.Feeds shape imp name target)
    (hsubscribed : world.Subscribed shape imp batch) (hbusy : busy batch name)
    (hscope : scope.current = some shape.id)
    (hreceived : scope.received = some (value, name)) :
    (runLines run scope label (targets.flatMap shape.feedLines)).Meets world
      (fun _ after => graph.Drift (graph.rank imp.source) busy world after ∧
        ∀ target, graph.Feeds shape imp name target →
          (target ∈ targets ∨ world.content target = some value) →
            after.content target = some value) allowed := by
  induction targets generalizing world with
  | nil =>
    rw [List.flatMap_nil, meets_runLines_nil]
    exact ⟨.of_alike (.refl world), fun target _ h => h.resolve_left (by simp)⟩
  | cons target rest ih =>
    have hlines : ∀ line ∈ shape.feedLines target, line.goesOn = false := by
      unfold ModuleShape.feedLines
      split <;> simp
    rw [List.flatMap_cons, meets_runLines_append hlines]
    refine (meets_feedLines busy hgraph hrounds hwired hplace (hfeeds target (by simp)) hsubscribed hbusy
      hscope hreceived).weaken fun _ middle hmiddle => ?_
    obtain ⟨hdrift, hcontent, hothers⟩ := hmiddle
    refine (ih (hwired.keeps hdrift.toKeeps) (hdrift.places_iff.mpr hplace)
      (fun other hother => hfeeds other (by simp [hother]))
      (hdrift.subscribed_iff.mpr hsubscribed)).weaken fun _ after hafter => ?_
    refine ⟨hdrift.trans hafter.1, fun other hother hcases => hafter.2 other hother ?_⟩
    by_cases hsame : other = target
    · exact .inr (hsame ▸ hcontent)
    · rw [hothers other hother hsame]
      exact hcases.imp_left fun hmem => (List.mem_cons.mp hmem).resolve_left hsame

/-! ### Deliveries -/

/-- Rows that correspond to the feeds of an import: a name is looked up among them where there is a
feed for it. -/
theorem get?_of_forall₂ {taken : Feed → Consumer → Prop} {feeds : List (String × Feed)}
    {rows : List (String × Consumer)}
    (h : List.Forall₂ (fun feed row => row.1 = feed.1 ∧ taken feed.2 row.2) feeds rows)
    (name : String) :
    (Table.get? ⟨rows⟩ name = none ∧ name ∉ feeds.map (·.1)) ∨
      ∃ feed consumer, (name, feed) ∈ feeds ∧ taken feed consumer ∧
        Table.get? ⟨rows⟩ name = some consumer := by
  induction h with
  | nil => exact .inl ⟨rfl, by simp⟩
  | @cons feed row feeds rows hrow _ ih =>
    obtain ⟨hname, htaken⟩ := hrow
    by_cases hsame : row.1 = name
    · refine .inr ⟨feed.2, row.2, ?_, htaken, by simp [Table.get?, hsame]⟩
      rw [← hsame, hname]
      exact List.mem_cons_self
    · have hget : Table.get? ⟨row :: rows⟩ name = Table.get? ⟨rows⟩ name := by
        simp [Table.get?, hsame]
      rw [hget]
      rcases ih with ⟨hnone, hnot⟩ | ⟨found, consumer, hmem, htaken', hsome⟩
      · refine .inl ⟨hnone, ?_⟩
        rw [List.map_cons, List.mem_cons, not_or]
        exact ⟨fun heq => hsame (hname.trans heq.symm), hnot⟩
      · exact .inr ⟨found, consumer, List.mem_cons_of_mem _ hmem, htaken', hsome⟩

/-- The batch of an import is concerned with the names that the import feeds on, by one consumer
each. -/
theorem concerned_cases (hgraph : graph.WellFormed) {shape : ModuleShape} {imp : Import}
    {batch : BatchRef} (hshape : shape ∈ graph.modules) (himp : imp ∈ shape.imports)
    (hregistered : world.Registered shape imp batch) (name : String) :
    ((world.batch batch).concerned name = [] ∧ name ∉ imp.feeds.map (·.1)) ∨
      ∃ feed consumer, (name, feed) ∈ imp.feeds ∧ world.Takes shape feed consumer ∧
        (world.batch batch).concerned name = [(name, consumer)] := by
  have hevery : (world.batch batch).consumers.get? everyName = none := by
    rcases get?_of_forall₂ hregistered.consumers everyName with ⟨hnone, -⟩ | ⟨feed, _, hmem, -⟩
    · exact hnone
    · have hname := List.mem_map_of_mem (f := Prod.fst) hmem
      exact absurd hname (hgraph.noWildcard shape hshape imp himp)
  have hconcerned : (world.batch batch).concerned name =
      (((world.batch batch).consumers.get? name).map (name, ·)).toList := by
    unfold Batch.concerned
    split <;> simp [hevery]
  rw [hconcerned]
  rcases get?_of_forall₂ hregistered.consumers name with ⟨hnone, hnot⟩ | ⟨feed, consumer, h⟩
  · have hnone' : (world.batch batch).consumers.get? name = none := hnone
    exact .inl ⟨by rw [hnone']; rfl, hnot⟩
  · have hsome : (world.batch batch).consumers.get? name = some consumer := h.2.2
    exact .inr ⟨feed, consumer, h.1, h.2.1, by rw [hsome]; rfl⟩

/-- Noting that a batch receives the current value of a name begins a delivery: the locals of the
delivery are left out from here on. -/
theorem drift_handOver (busy : BatchRef → String → Prop) (hgraph : graph.WellFormed)
    (hwired : graph.Wired world)
    {shape : ModuleShape} {place : Place} {batch : BatchRef} {name target : String} {value : Value}
    (hshape : shape ∈ graph.modules) (hplace : world.Places shape.id place)
    (hbatch : batch ∈ (world.entry place.entry).batches)
    (hexport : (name, target) ∈ shape.exports) (hvalue : world.content target = some value)
    (hlt : batch.index < world.batches.size) :
    graph.Drift (graph.rank shape.id)
        (fun other otherName => busy other otherName ∨ other = batch ∧ otherName = name)
        world (world.handOver batch name name value) ∧
      (world.handOver batch name name value).IsCurrent (.batch batch) name target := by
  have hcontent (other : String) :
      (world.handOver batch name name value).content other = world.content other := rfl
  have hseen := world.seen?_handOver batch name name value
  have hnew : (world.handOver batch name name value).copy (.batch batch) name = some value := by
    change World.seen? _ batch name name = _
    rw [hseen, if_pos ⟨rfl, hlt, rfl, rfl⟩]
  -- Other copies are as before; this one is of the exported name only.
  have hcopies {exporter : ModuleShape} {otherName otherTarget : String} {copy : Copy}
      (hexporter : exporter ∈ graph.modules) (hother : (otherName, otherTarget) ∈ exporter.exports)
      (hcopy : world.CopyOf exporter.id otherName copy) :
      (world.handOver batch name name value).copy copy otherName = world.copy copy otherName ∨
        copy = .batch batch ∧ otherName = name ∧ otherTarget = target := by
    obtain ⟨place', hplace', rfl | ⟨other, hmem, rfl, -⟩⟩ := hcopy
    · exact .inl rfl
    · by_cases hsame : other = batch ∧ otherName = name
      · obtain ⟨rfl, rfl⟩ := hsame
        obtain rfl := hgraph.eq_of_id hexporter hshape
          (hwired.id_unique hgraph hplace' hmem hplace hbatch)
        have hrows := List.inj_on_of_nodup_map (hgraph.exportNames _ hshape) hother hexport rfl
        exact .inr ⟨rfl, rfl, (Prod.mk.inj hrows).2⟩
      · left
        change World.seen? _ other otherName otherName = world.seen? other otherName otherName
        rw [hseen, if_neg fun h => hsame ⟨h.1, h.2.2.1⟩]
  refine ⟨?_, hnew.trans hvalue.symm⟩
  refine
    { toKeeps := world.keeps_handOver batch name name value
      content := fun _ => hcontent _, seen := ?_, current := ?_, unset := ?_, fed := ?_ }
  · intro other hhigher slot otherName
    have hne : other ≠ batch := by
      rintro rfl
      exact Nat.lt_irrefl _ (hhigher shape.id place hplace hbatch)
    rw [hseen, if_neg fun h => hne h.1]
  · intro exporter otherName otherTarget copy hexporter hother hcopy hcurrent
    unfold World.IsCurrent at hcurrent ⊢
    rw [hcontent]
    rcases hcopies hexporter hother hcopy with hsame | ⟨rfl, rfl, rfl⟩
    · rw [hsame, hcurrent]
    · rw [hnew, hvalue]
  · intro exporter otherName otherTarget copy hexporter hother hcopy hunset hnone
    rw [hcontent] at hnone
    rcases hcopies hexporter hother hcopy with hsame | ⟨rfl, rfl, rfl⟩
    · rw [hsame, hunset hnone]
    · rw [hvalue] at hnone
      cases hnone
  · intro _ _ otherName otherTarget other _ _ hnotBusy hfed
    unfold World.IsFed at hfed ⊢
    rw [hcontent, hseen, if_neg fun h => hnotBusy (.inr ⟨h.1, h.2.2.1⟩), hfed]

/-- A delivery of the current value of an exported name to a batch of the module. -/
theorem meets_deliver (busy : BatchRef → String → Prop) {depth : Nat} (hgraph : graph.WellFormed)
    (hallowed : ∀ error, ¬ allowed (.failed error)) (hwired : graph.Wired world)
    {shape : ModuleShape} {place : Place} {batch : BatchRef} {name target : String} {value : Value}
    (hrounds : graph.RoundsMeet (runner depth) (graph.rank shape.id) allowed)
    (hshape : shape ∈ graph.modules) (hplace : world.Places shape.id place)
    (hbatch : batch ∈ (world.entry place.entry).batches)
    (hexport : (name, target) ∈ shape.exports) (hvalue : world.content target = some value) :
    (deliver (runner (depth + 1)) batch name value).Meets world
      (fun _ after => graph.Drift (graph.rank shape.id) busy world after ∧
        ((world.batch batch).concerned name ≠ [] → after.IsCurrent (.batch batch) name target))
      allowed := by
  obtain ⟨importer, himporter, imp, himp, hsource, ⟨home, hhome⟩, hregistered⟩ :=
    hwired.registered hplace hbatch
  rcases concerned_cases hgraph himporter himp hregistered name with
    ⟨hnone, -⟩ | ⟨feed, consumer, hfeed, htakes, hone⟩
  · exact meets_deliver_none hnone ⟨.of_alike (.refl world), fun h => absurd hnone h⟩
  have hconcerned : (world.batch batch).concerned name ≠ [] := by
    rw [hone]
    exact List.cons_ne_nil _ _
  refine meets_deliver_one hone hregistered.spaces hregistered.isActive ?_ ?_
  · -- The batch has seen the value last, so that its copy is current already.
    intro hseen
    exact ⟨.of_alike (.refl world), fun _ => hseen.trans hvalue.symm⟩
  obtain ⟨hnoted, hcurrent⟩ := drift_handOver busy hgraph hwired hshape hplace hbatch
    hexport hvalue hregistered.lt
  have hsubscribed : world.Subscribed importer imp batch :=
    ⟨place, hsource ▸ hplace, hbatch, hregistered.key⟩
  have hfeeds {local' : String} (hlocal : local' ∈ feed.targets) :
      graph.Feeds importer imp name local' :=
    ⟨himporter, himp, feed, hfeed, hlocal⟩
  -- Every local of the delivery is one of the feed's.
  have hlocals {shape' : ModuleShape} {imp' : Import} {local' : String}
      (hfeeds' : graph.Feeds shape' imp' name local')
      (hsubscribed' : world.Subscribed shape' imp' batch) : local' ∈ feed.targets := by
    obtain ⟨place', hplace', hbatch', hkey⟩ := hsubscribed'
    obtain ⟨hid, hnumber⟩ :=
      scopedKey_repr_inj (Option.some.inj (hkey.symm.trans hregistered.key))
    obtain rfl := hgraph.eq_of_id hfeeds'.shape_mem himporter hid
    obtain rfl := hgraph.eq_of_key himporter hfeeds'.imp_mem himp hnumber
    obtain ⟨feed', hfeed', hlocal⟩ := hfeeds'.feed
    have hrows := List.inj_on_of_nodup_map (hgraph.feedNames _ himporter _ himp) hfeed' hfeed rfl
    rwa [(Prod.mk.inj hrows).2] at hlocal
  -- What is left is that the consumer puts the value into all of them.
  have hfinish {after : World}
      (hdrift : graph.Drift (graph.rank shape.id)
        (fun other otherName => busy other otherName ∨ other = batch ∧ otherName = name)
        (world.handOver batch name name value) after)
      (hassigned : ∀ local' ∈ feed.targets, after.content local' = some value) :
      graph.Drift (graph.rank shape.id) busy world after ∧
        ((world.batch batch).concerned name ≠ [] →
          after.IsCurrent (.batch batch) name target) := by
    have hafter : after.IsCurrent (.batch batch) name target := by
      refine hdrift.current hshape hexport (hnoted.copyOf_iff.mpr ⟨place, hplace, .inr ?_⟩) hcurrent
      exact ⟨batch, hbatch, rfl, hconcerned⟩
    have hkept : after.content target = some value := by
      rw [hdrift.content_of_export hgraph hshape (exportsTarget_of_mem hexport)]
      exact hvalue
    refine ⟨(hnoted.trans hdrift).settle fun {shape' imp' local'} hfeeds' hsubscribed' => ?_,
      fun _ => hafter⟩
    have hcopy : after.seen? batch name name = after.content target := hafter
    unfold World.IsFed
    rw [hassigned local' (hlocals hfeeds' hsubscribed'), hcopy, hkept]
  have hwiredNoted := hwired.keeps hnoted.toKeeps
  cases htakes with
  | @assign local' ref hname =>
    have hset := World.content_setBinding hwiredNoted.namesValid (hnoted.bindingNamed hname) value
    have hlocal : ((world.handOver batch name name value).setBinding ref value).content local' =
        some value := by
      rw [hset, if_pos rfl]
    refine Effect.meets_modify.mpr (hfinish ?_ fun other hother => ?_)
    · rw [← hsource]
      refine drift_feed hgraph hwiredNoted (hfeeds (List.mem_singleton_self _))
        (hnoted.subscribed_iff.mpr hsubscribed) (.inr ⟨rfl, rfl⟩) (hnoted.bindingNamed hname)
        (Nat.le_refl _) (.of_alike (.refl _)) hlocal ?_
      rintro row hrow rfl
      have hdirect := hgraph.direct importer himporter imp himp name row.2 hfeed
      rw [exportsTarget_of_mem hrow] at hdirect
      cases hdirect
    · rw [List.mem_singleton.mp hother]
      exact hlocal
  | @callback targets =>
    refine meets_respond_callback hallowed fun start hstart => ?_
    change (runLines (runner depth) { current := some importer.id, received := some (value, name) }
      "setter" (targets.flatMap importer.feedLines)).Meets start _ allowed
    refine (meets_flatMap_feedLines
      (fun other otherName => busy other otherName ∨ other = batch ∧ otherName = name) hgraph
      (hsource.symm ▸ hrounds) (hwiredNoted.keeps hstart.toKeeps)
      (hstart.places_iff.mpr (hnoted.places_iff.mpr hhome)) (fun local' => hfeeds)
      (hstart.subscribed_iff.mpr (hnoted.subscribed_iff.mpr hsubscribed)) (.inr ⟨rfl, rfl⟩) rfl
      rfl).weaken fun _ after hafter => ?_
    rw [hsource] at hafter
    exact hfinish ((Drift.of_alike hstart).trans hafter.1) fun local' hlocal =>
      hafter.2 local' (hfeeds hlocal) (.inl hlocal)

/-! ### Rounds -/

/-- What is so while the values of a round over a module are delivered: the module, its batches and
the variables that it exports are as they were in the beginning, and its namespace is current. -/
structure Underway (graph : ImportGraph) (shape : ModuleShape) (place : Place) (start now : World) :
    Prop where
  wired : graph.Wired now
  places : now.Places shape.id place
  batches : (now.entry place.entry).batches = (start.entry place.entry).batches
  content : ∀ {name target}, (name, target) ∈ shape.exports →
    now.content target = start.content target
  shown : ∀ {name target}, (name, target) ∈ shape.exports →
    start.IsUnset (.space place.space) name target →
      now.IsCurrent (.space place.space) name target

theorem Underway.drift {shape : ModuleShape} {place : Place} {start now after : World}
    (hgraph : graph.WellFormed) (hshape : shape ∈ graph.modules)
    (h : graph.Underway shape place start now)
    (hdrift : graph.Drift (graph.rank shape.id) busy now after) :
    graph.Underway shape place start after where
  wired := h.wired.keeps hdrift.toKeeps
  places := hdrift.places_iff.mpr h.places
  batches := (hdrift.batches _).trans h.batches
  content hexport :=
    (hdrift.content_of_export hgraph hshape (exportsTarget_of_mem hexport)).trans (h.content hexport)
  shown hexport hunset :=
    hdrift.current hshape hexport ⟨place, h.places, .inl rfl⟩ (h.shown hexport hunset)

/-- A round over a module whose rank is less than the depth to which callbacks may be nested comes to
its end, and leaves every copy of the module's exported names with the current value. -/
theorem meets_propagate (hgraph : graph.WellFormed) (hallowed : ∀ error, ¬ allowed (.failed error))
    (depth : Nat) : graph.RoundsMeet (runner depth) depth allowed := by
  induction depth with
  | zero =>
    intro busy shape place world hshape hrank
    exact absurd hrank (Nat.not_lt_zero _)
  | succ depth ih =>
    intro busy shape place world hshape hrank hwired hplace
    have hrounds : graph.RoundsMeet (runner depth) (graph.rank shape.id) allowed :=
      fun busy _ _ _ hother hlower => ih busy hother (Nat.lt_of_lt_of_le hlower (Nat.le_of_lt_succ hrank))
    have hnames := hgraph.exportNames shape hshape
    obtain ⟨hplain, hvalues⟩ := roundValues_of_provides (hwired.provides hshape hplace)
    have hslots : world.exportsItself place.entry = false := by
      unfold World.exportsItself
      rw [hplace.spaceOf, hplace.isModule]
      exact Bool.and_false _
    -- A delivery within the round has the value that the exported variable holds throughout.
    have hdelivered {name : String} {value : Value}
        (hrow : (name, value) ∈ world.exportedValues shape.exports) :
        ∃ target, (name, target) ∈ shape.exports ∧ world.content target = some value :=
      mem_exportedValues.mp hrow
    have hdelivering : Delivering (graph.Drift (graph.rank shape.id) busy)
        (graph.Underway shape place world)
        (fun batch name now => graph.Underway shape place world now ∧
          ∀ target, (name, target) ∈ shape.exports → now.CopyOf shape.id name (.batch batch) →
            now.IsCurrent (.batch batch) name target) :=
      { held := fun world held => .of_alike (World.alike_held world held)
        trans := Drift.trans
        keepsPre := fun hdrift hnow => hnow.drift hgraph hshape hdrift
        keepsGoal := fun hdrift hgoal => ⟨hgoal.1.drift hgraph hshape hdrift,
          fun target hexport hcopy => hdrift.current hshape hexport (hdrift.copyOf_iff.mp hcopy)
            (hgoal.2 target hexport (hdrift.copyOf_iff.mp hcopy))⟩ }
    refine (hdelivering.meets_propagate hplain hslots ?_ ?_ ?_).mono ?_ fun _ => id
    rotate_right
    · rintro _ after ⟨hdrift, hunderway, hgoals⟩
      refine ⟨hdrift, fun {name target copy} hexport hcopy hunset => ?_⟩
      obtain ⟨place', hplace', hcases⟩ := hcopy
      obtain rfl := hplace.unique hplace'
      rcases hcases with rfl | ⟨batch, hbatch, rfl, hconcerned⟩
      · exact hunderway.shown hexport hunset
      have hcopy : world.CopyOf shape.id name (.batch batch) :=
        ⟨place, hplace, .inr ⟨batch, hbatch, rfl, hconcerned⟩⟩
      cases hvalue : world.content target with
      | none =>
        -- Nothing is delivered, and what had nothing still has nothing.
        have hnone := (hunderway.content hexport).trans hvalue
        exact (hdrift.unset hshape hexport hcopy hunset hnone).trans hnone.symm
      | some value =>
        have hrow := mem_exportedValues.mpr ⟨target, hexport, hvalue⟩
        rw [← hvalues] at hrow
        exact (hgoals batch hbatch (name, value) hrow).2 target hexport
          (hdrift.copyOf_iff.mpr hcopy)
    · intro now hnow batch hbatch
      obtain ⟨_, _, _, _, _, _, hregistered⟩ :=
        hnow.wired.registered hnow.places (hnow.batches ▸ hbatch)
      exact hregistered.isActive
    · rintro batch hbatch ⟨name, value⟩ hrow now hnow
      rw [hvalues] at hrow
      obtain ⟨target, hexport, hvalue⟩ := hdelivered hrow
      have hbatch' : batch ∈ (now.entry place.entry).batches := hnow.batches ▸ hbatch
      refine (meets_deliver busy hgraph hallowed hnow.wired hrounds hshape hnow.places
        hbatch' hexport ((hnow.content hexport).trans hvalue)).weaken fun _ after hafter => ?_
      refine ⟨hafter.1, hnow.drift hgraph hshape hafter.1, fun other hother hcopy => ?_⟩
      have hrows := List.inj_on_of_nodup_map hnames hother hexport rfl
      obtain rfl := (Prod.mk.inj hrows).2
      obtain ⟨_, _, hspace | ⟨_, _, heq, hconcerned⟩⟩ := hafter.1.copyOf_iff.mp hcopy
      · cases hspace
      · cases heq
        exact hafter.2 hconcerned
    · intro refreshed hrefreshed _
      rw [hplace.spaceOf, hvalues] at hrefreshed
      obtain ⟨hdrift, hshown⟩ := drift_refreshed (graph.rank shape.id) busy hgraph hwired
        hshape hplace hrefreshed
      exact ⟨hdrift,
        { wired := hwired.keeps hdrift.toKeeps
          places := hdrift.places_iff.mpr hplace
          batches := hdrift.batches _
          content := fun _ => hrefreshed.toKeeps.content hrefreshed.binding _
          shown := hshown }⟩

end

end ImportGraph

end ModuleLinkage.Ledger
