import ModuleLinkage.Proofs.Ledger.Reentry.Attached

/-!
# Values that are overtaken

A round delivers the values that it took in the beginning, whatever consumers assign meanwhile. Each
assignment to an exported variable is followed by a round of its own, so every consumer is told the new
value; but when that inner round is done, the outer one goes on and hands its older value to the
consumers whose turn has not come yet.

`Outlet.lastHanded_iff` says exactly when this leaves a consumer with an old value: when the last
thing that it was handed since the provider was last asked, that is, since the latest of the rounds
began, is not what the variable holds. What the entry's namespace shows is never old, and the
namespaces listed with the batch follow its first consumer. The rules are proved by induction on how
deep callbacks are nested (`Outlet.meets_propagate`).
-/

set_option autoImplicit false

namespace ModuleLinkage.Ledger

/-- The world after a program, whatever becomes of its lines. -/
def World.afterwards (depth : Nat) (world : World) (program : Program) : World :=
  program.foldl (fun world line => (world.step depth line).2) world

variable {outlet : Outlet} {run : Runner} {scope : Scope} {world : World} {allowed : Fault → Prop}

namespace Outlet

/-- Whether the outlet is settled, if the variable holds something. -/
def IsSettled (outlet : Outlet) (world : World) : Prop :=
  ∀ value, outlet.current world = some value → outlet.Settled world value

/-- The variable holds what a round has taken, and the namespace shows it; or the consumer was told
what the variable holds by a later round. -/
def IsReady (outlet : Outlet) (value : Value) (world : World) : Prop :=
  outlet.current world = some value ∧ outlet.shown world = some value ∨
    ∀ now, outlet.current world = some now → outlet.Told world now

theorem Quiet.isReady {first second : World} {value : Value} (h : outlet.Quiet first second)
    (hready : outlet.IsReady value first) : outlet.IsReady value second := by
  rcases hready with ⟨hcurrent, hshown⟩ | htold
  · exact .inl ⟨h.current.trans hcurrent, h.shown.trans hshown⟩
  · exact .inr fun now hnow => h.told (htold now (h.current ▸ hnow))

theorem Relay.isReady {first second : World} {value : Value} (h : outlet.Relay first second)
    (hready : outlet.IsReady value first) : outlet.IsReady value second := by
  rcases h.quiet_or_settled with hquiet | hdone
  · exact hquiet.isReady hready
  · exact .inr fun now hnow => (hdone now hnow).toTold

/-- Where the namespace is ready for a value, it shows what the variable holds. -/
theorem IsReady.shown {value now : Value} (h : outlet.IsReady value world)
    (hnow : outlet.current world = some now) : outlet.shown world = some now := by
  rcases h with ⟨hcurrent, hshown⟩ | htold
  · rw [hshown, ← hcurrent, hnow]
  · exact (htold now hnow).shown

/-- What is asked of the lines that consumers run. -/
def LinesMeet (outlet : Outlet) (run : Runner) (allowed : Fault → Prop) : Prop :=
  ∀ {world : World} {scope : Scope} {lines : Program} (label : String), outlet.Attached world →
    outlet.Follows world scope lines →
      (run scope label lines).Meets world (fun _ after => outlet.Relay world after) allowed

/-- What is asked of the rounds that such lines begin. -/
def RoundsMeet (outlet : Outlet) (run : Runner) (allowed : Fault → Prop) : Prop :=
  ∀ {world : World} (entry : EntryRef), outlet.Attached world →
    (propagate run entry).Meets world
      (fun _ after => outlet.Relay world after ∧ (entry = outlet.entry → outlet.IsSettled after))
      allowed

/-! ### Deliveries -/

/-- A consumer that leaves the outlet up to date receives a value. -/
theorem Attached.meets_respond (h : outlet.Attached world)
    (hallowed : ∀ error, ¬ allowed (.failed error)) (hlines : outlet.LinesMeet run allowed)
    {consumer : Consumer} (hconsumer : outlet.Accepts world consumer) (name : String)
    (value : Value) :
    (consumer.respond run name value).Meets world (fun _ after => outlet.Relay world after)
      allowed := by
  cases consumer with
  | assign binding => exact Effect.meets_modify.mpr (relay_setBinding hconsumer value)
  | copyInto space => exact Effect.meets_modify.mpr (relay_setMember hconsumer name value)
  | callback label lines inner =>
    refine meets_respond_callback hallowed fun start hstart => ?_
    have hfollows : outlet.Follows start { inner with received := some (value, name) } lines :=
      (Follows.keeps hstart.toKeeps h.binding_lt hconsumer).receiving _
    refine (hlines "setter" (h.keeps hstart.toKeeps) hfollows).weaken fun _ after hafter => ?_
    exact hstart.relay.trans hafter

/-- A delivery to one consumer of a batch. If it is the outlet's, and the value is what the variable
holds, then the outlet is settled afterwards. -/
theorem Attached.meets_deliverTo (h : outlet.Attached world)
    (hallowed : ∀ error, ¬ allowed (.failed error)) (hlines : outlet.LinesMeet run allowed)
    {batch : BatchRef} (hactive : (world.batch batch).isActive = true) {name : String}
    {value : Value} {row : String × Consumer} (hrow : row ∈ (world.batch batch).concerned name)
    (hlisted : batch = outlet.batch → row.1 = outlet.slot → name = outlet.name →
      ∀ space ∈ outlet.listed world, world.member? space outlet.name = some value) :
    (deliverTo run batch name value row.1 row.2).Meets world
      (fun goesOn after => goesOn = true ∧ outlet.Relay world after ∧
        (batch = outlet.batch → row.1 = outlet.slot → name = outlet.name →
          outlet.Lists after ∧ (outlet.IsReady value world → outlet.IsSettled after)))
      allowed := by
  obtain ⟨other, hother, hsame⟩ := mem_rows_of_mem_concerned hrow
  have haccepts : outlet.Accepts world row.2 := hsame ▸ h.accepts batch other hother
  refine Ledger.meets_deliverTo hactive (fun hlast => ?_) ?_
  · refine ⟨rfl, .refl world, ?_⟩
    rintro rfl hslot rfl
    have hseen : outlet.seen world = some value := by
      rw [← hlast, hslot]
      rfl
    have hlists : outlet.Lists world := fun space hspace =>
      (hlisted rfl hslot rfl space hspace).trans hseen.symm
    refine ⟨hlists, fun hready now hnow => ⟨⟨hready.shown hnow, fun hnone => ?_⟩, hlists⟩⟩
    rcases hready with ⟨hcurrent, -⟩ | htold
    · rw [hseen, ← hcurrent, hnow]
    · exact (htold now hnow).seen hnone
  · have hnoted := h.relay_handOver hlisted
    have hkeeps := hnoted.toKeeps
    refine ((h.keeps hkeeps).meets_respond hallowed hlines (haccepts.keeps hkeeps h.binding_lt) name
      value).weaken fun _ after hafter => ⟨rfl, hnoted.trans hafter, ?_⟩
    rintro rfl hslot rfl
    have hhanded : outlet.handed? (.consumer outlet.batch row.1 outlet.name value) = some value :=
      if_pos ⟨rfl, hslot, rfl⟩
    have hlists : outlet.Lists (world.handOver outlet.batch row.1 outlet.name value) := by
      intro space hspace
      rw [hkeeps.listed] at hspace
      unfold seen
      rw [World.seen?_handOver, if_pos ⟨rfl, h.batch_lt, hslot.symm, rfl⟩]
      exact hlisted rfl hslot rfl space hspace
    refine ⟨hafter.lists hlists, fun hready => hafter.settled fun now hnow => ⟨⟨?_, ?_⟩, hlists⟩⟩
    · unfold shown
      rw [hkeeps.spaceOf]
      exact hready.shown hnow
    · -- The call itself is one since the provider was last asked.
      intro hnone
      rw [World.calls_handOver, ← List.singleton_append, lastHandedSince?_append (by simp [Callback.asks]),
        Option.or_eq_none_iff] at hnone
      simp [lastHanded?, hhanded] at hnone

/-- Deliveries to several consumers of a batch, of which the outlet's is not the first one of all. -/
theorem Attached.meets_deliverToAll (h : outlet.Attached world)
    (hallowed : ∀ error, ¬ allowed (.failed error)) (hlines : outlet.LinesMeet run allowed)
    {batch : BatchRef} (hactive : (world.batch batch).isActive = true) {name : String}
    {value : Value} {rows : List (String × Consumer)}
    (hrows : ∀ row ∈ rows, row ∈ (world.batch batch).concerned name)
    (hlater : batch = outlet.batch → name = outlet.name → outlet.slot ∈ rows.map (·.1) →
      outlet.listed world = []) :
    (deliverToAll run batch name value rows).Meets world
      (fun _ after => outlet.Relay world after ∧
        (batch = outlet.batch → name = outlet.name → outlet.slot ∈ rows.map (·.1) →
          outlet.IsReady value world → outlet.IsSettled after)) allowed := by
  induction rows generalizing world with
  | nil =>
    refine (Effect.meets_pure _).mpr ⟨.refl world, ?_⟩
    simp
  | cons row rest ih =>
    simp only [deliverToAll, Effect.meets_bind]
    refine (h.meets_deliverTo hallowed hlines hactive (hrows row List.mem_cons_self) ?_).weaken ?_
    · intro hbatch hslot hname space hspace
      rw [hlater hbatch hname (by simp [hslot])] at hspace
      cases hspace
    rintro _ middle ⟨rfl, hmiddle, hreached⟩
    have hkeeps := hmiddle.toKeeps
    have hrest := ih (h.keeps hkeeps) ((hkeeps.isActive _).trans hactive)
      (fun other hother => hkeeps.concerned batch name ▸
        hrows other (List.mem_cons_of_mem _ hother))
      (fun hbatch hname hmem => hkeeps.listed.trans
        (hlater hbatch hname (List.mem_cons_of_mem _ hmem)))
    rw [if_pos rfl]
    refine hrest.weaken fun _ after hafter => ⟨hmiddle.trans hafter.1, ?_⟩
    intro hbatch hname hmem hready
    rw [List.map_cons, List.mem_cons] at hmem
    rcases hmem with hslot | hmem
    · exact hafter.1.settled ((hreached hbatch hslot.symm hname).2 hready)
    · exact hafter.2 hbatch hname hmem (hmiddle.isReady hready)

/-- A delivery to a batch. -/
theorem Attached.meets_deliver (h : outlet.Attached world)
    (hallowed : ∀ error, ¬ allowed (.failed error)) (hlines : outlet.LinesMeet run allowed)
    {batch : BatchRef} (hactive : (world.batch batch).isActive = true) (name : String)
    (value : Value) :
    (deliver run batch name value).Meets world
      (fun _ after => outlet.Relay world after ∧
        (batch = outlet.batch → name = outlet.name →
          outlet.IsReady value world → outlet.IsSettled after)) allowed := by
  simp only [deliver, Effect.meets_bind, Effect.meets_get]
  cases hconcerned : (world.batch batch).concerned name with
  | nil =>
    refine (Effect.meets_pure _).mpr ⟨.refl world, ?_⟩
    rintro rfl rfl
    have hslot := h.concerned
    rw [hconcerned] at hslot
    cases hslot
  | cons first rest =>
    have hkeeps := world.keeps_writeThrough batch name value
    have hquiet := h.quiet_writeThrough batch name value
    have hwritten := h.keeps hkeeps
    simp only [List.isEmpty_cons, Bool.false_eq_true, if_false, Effect.meets_modify, deliverToAll,
      Effect.meets_bind]
    -- The listed namespaces follow the first consumer, so they are of no concern to the others.
    have hfirst (hbatch : batch = outlet.batch) (hname : name = outlet.name)
        (hslot : first.1 ≠ outlet.slot) : outlet.listed world = [] := by
      subst hbatch hname
      unfold listed
      rw [hconcerned, if_neg]
      simpa using hslot
    have hnodup := nodup_concerned (world.batch batch) name
    rw [hconcerned, List.map_cons, List.nodup_cons] at hnodup
    have hrows {row : String × Consumer} (hrow : row ∈ first :: rest) :
        row ∈ ((world.writeThrough batch name value).batch batch).concerned name := by
      rw [hkeeps.concerned, hconcerned]
      exact hrow
    have hstill : ((world.writeThrough batch name value).batch batch).isActive = true :=
      (hkeeps.isActive batch).trans hactive
    refine (hwritten.meets_deliverTo hallowed hlines hstill (hrows List.mem_cons_self) ?_).weaken ?_
    · rintro rfl - rfl space hspace
      exact h.member?_writeThrough value (hkeeps.listed ▸ hspace)
    rintro _ middle ⟨rfl, hmiddle, hreached⟩
    have hkeepsMiddle := hmiddle.toKeeps
    rw [if_pos rfl]
    refine ((hwritten.keeps hkeepsMiddle).meets_deliverToAll hallowed hlines
      ((hkeepsMiddle.isActive _).trans hstill)
      (fun row hrow => hkeepsMiddle.concerned batch name ▸ hrows (List.mem_cons_of_mem _ hrow))
      fun hbatch hname hmem => ?_).weaken fun _ after hafter => ?_
    · rw [hkeepsMiddle.listed, hkeeps.listed]
      exact hfirst hbatch hname fun hslot => hnodup.1 (hslot ▸ hmem)
    have hafterWritten := hmiddle.trans hafter.1
    refine ⟨⟨hkeeps.trans hafterWritten.toKeeps, ?_, fun hlists => ?_, ?_⟩, ?_⟩
    · obtain ⟨newer, hrecords, -⟩ := hquiet.records
      obtain ⟨newest, hrecords'⟩ := hafterWritten.records
      exact ⟨_, hrecords.trans hrecords'⟩
    · by_cases hours : batch = outlet.batch ∧ name = outlet.name ∧ first.1 = outlet.slot
      · exact hafter.1.lists (hreached hours.1 hours.2.2 hours.2.1).1
      · refine hafterWritten.lists (h.lists_writeThrough value (fun hbatch hname => ?_) hlists)
        exact hfirst hbatch hname fun hslot => hours ⟨hbatch, hname, hslot⟩
    · rcases hafterWritten.quiet_or_settled with hquiet' | hsettled
      · exact .inl (hquiet.trans hquiet')
      · exact .inr hsettled
    · intro hbatch hname hready
      have hreadyWritten := hquiet.isReady hready
      by_cases hslot : first.1 = outlet.slot
      · exact hafter.1.settled ((hreached hbatch hslot hname).2 hreadyWritten)
      · refine hafter.2 hbatch hname ?_ (hmiddle.isReady hreadyWritten)
        have hmem := h.concerned
        subst hbatch hname
        rw [hconcerned, List.map_cons, List.mem_cons] at hmem
        exact hmem.resolve_left (Ne.symm hslot)

/-! ### Rounds -/

/-- Whether the outlet is attached and everything is registered as in an earlier world. -/
def IsStill (outlet : Outlet) (earlier now : World) : Prop :=
  outlet.Attached now ∧ earlier.Keeps now

theorem delivering (outlet : Outlet) (earlier : World) (pre : World → Prop)
    (goal : BatchRef → String → World → Prop)
    (hpre : ∀ {first second}, outlet.Relay first second → pre first → pre second)
    (hgoal : ∀ {first second batch name}, outlet.Relay first second → goal batch name first →
      goal batch name second) :
    Delivering outlet.Relay (fun now => outlet.IsStill earlier now ∧ pre now) goal where
  held world held := (World.alike_held world held).relay
  trans := Relay.trans
  keepsPre hrelay h :=
    ⟨⟨h.1.1.keeps hrelay.toKeeps, h.1.2.trans hrelay.toKeeps⟩, hpre hrelay h.2⟩
  keepsGoal := hgoal

/-- A round over another entry leaves the outlet up to date. -/
theorem Attached.meets_propagate_other (h : outlet.Attached world)
    (hallowed : ∀ error, ¬ allowed (.failed error)) (hlines : outlet.LinesMeet run allowed)
    {entry : EntryRef} (hentry : entry ≠ outlet.entry) :
    (propagate run entry).Meets world (fun _ after => outlet.Relay world after) allowed := by
  have hdelivering := outlet.delivering world (fun _ => True) (fun _ _ _ => True)
    (fun _ => id) fun _ => id
  have hrefresh : (refresh run entry).Meets world
      (fun _ refreshed => outlet.Relay world refreshed ∧
        (outlet.IsStill world refreshed ∧ True) ∧
          (refreshed.entry entry).batches = (world.entry entry).batches) allowed := by
    by_cases hself : world.exportsItself entry = true
    · exact meets_refresh_of_exportsItself hself ⟨.refl world, ⟨⟨h, .refl world⟩, trivial⟩, rfl⟩
    · refine meets_refresh (fun row _ => h.plain _) (by simpa using hself) ?_
      intro refreshed hrefreshed hpolled
      have hkeeps := hrefreshed.toKeeps
      exact ⟨h.relay_refreshed hentry hrefreshed hpolled, ⟨⟨h.keeps hkeeps, hkeeps⟩, trivial⟩,
        hkeeps.batches entry⟩
  refine (hdelivering.meets_propagate_of_refresh hrefresh ?_ ?_).weaken ?_
  · intro now hnow batch hbatch
    rw [hnow.1.2.isActive]
    exact h.active entry batch hbatch
  · intro _ _ _ batch hbatch row _ now hnow
    have hactive : (now.batch batch).isActive = true :=
      (hnow.1.2.isActive batch).trans (h.active entry batch hbatch)
    exact (hnow.1.1.meets_deliver hallowed hlines hactive row.1 row.2).weaken
      fun _ after hafter => ⟨hafter.1, trivial⟩
  · rintro _ after ⟨-, _, refreshed, hrelay, hmoved, -⟩
    exact hrelay.trans hmoved

/-- A round over the entry itself settles the outlet. -/
theorem Attached.meets_propagate_own (h : outlet.Attached world)
    (hallowed : ∀ error, ¬ allowed (.failed error)) (hlines : outlet.LinesMeet run allowed) :
    (propagate run outlet.entry).Meets world
      (fun _ after => outlet.Relay world after ∧ outlet.IsSettled after) allowed := by
  have hslots : world.exportsItself outlet.entry = false := by
    have hexported := h.exported
    unfold World.exportsItself
    unfold Entry.exported at hexported
    cases hrows : (world.entry outlet.entry).slots.rows with
    | nil => simp [hrows] at hexported
    | cons row rest => rfl
  -- As long as the variable holds nothing, there is nothing to tell.
  have hdelivering := outlet.delivering world
    (fun now => (∀ value, outlet.current world = some value → outlet.IsReady value now) ∧
      (outlet.current world = none → outlet.IsSettled now))
    (fun batch name now => batch = outlet.batch → name = outlet.name → outlet.IsSettled now)
    (fun hrelay hpre => ⟨fun value hvalue => hrelay.isReady (hpre.1 value hvalue),
      fun hnone => hrelay.settled (hpre.2 hnone)⟩)
    fun hrelay hgoal hbatch hname => hrelay.settled (hgoal hbatch hname)
  have hrefresh : (refresh run outlet.entry).Meets world
      (fun values refreshed =>
        (values = world.roundValues (world.entry outlet.entry).slots.rows ∧
          outlet.Begun world refreshed) ∧
        (outlet.IsStill world refreshed ∧
          (∀ value, outlet.current world = some value → outlet.IsReady value refreshed) ∧
          (outlet.current world = none → outlet.IsSettled refreshed)) ∧
        (refreshed.entry outlet.entry).batches = (world.entry outlet.entry).batches) allowed := by
    refine meets_refresh (fun row _ => h.plain _) hslots fun refreshed hrefreshed hpolled => ?_
    have hbegun := h.begun hrefreshed hpolled
    refine ⟨⟨rfl, hbegun⟩, ⟨⟨h.keeps hbegun.toKeeps, hbegun.toKeeps⟩, ?_, ?_⟩, hbegun.batches _⟩
    · intro value hvalue
      have hcurrent := hbegun.current.trans hvalue
      exact .inl ⟨hcurrent, hbegun.shown value hcurrent⟩
    · intro hnone value hvalue
      rw [hbegun.current, hnone] at hvalue
      cases hvalue
  refine (hdelivering.meets_propagate_of_refresh hrefresh ?_ ?_).weaken ?_
  · intro now hnow batch hbatch
    rw [hnow.1.2.isActive]
    exact h.active outlet.entry batch hbatch
  · rintro _ refreshed ⟨rfl, -⟩ batch hbatch ⟨name, value⟩ hrow now ⟨⟨hattached, hkeeps⟩, hready, -⟩
    have hactive : (now.batch batch).isActive = true :=
      (hkeeps.isActive batch).trans (h.active outlet.entry batch hbatch)
    refine (hattached.meets_deliver hallowed hlines hactive name value).weaken
      fun _ after hafter => ⟨hafter.1, fun hours hname => hafter.2 hours hname ?_⟩
    exact hready value (h.current_of_mem_roundValues (hname ▸ hrow))
  · rintro _ after ⟨⟨-, -, hnone⟩, _, refreshed, ⟨rfl, hbegun⟩, hmoved, hgoals⟩
    have hsettled : outlet.IsSettled after := by
      cases hvalue : outlet.current world with
      | none => exact hnone hvalue
      | some value => exact hgoals _ h.batch_mem _ (h.mem_roundValues hvalue) rfl rfl
    obtain ⟨newer, hrecords⟩ := hbegun.records
    obtain ⟨newest, hrecords'⟩ := hmoved.records
    exact ⟨⟨hbegun.toKeeps.trans hmoved.toKeeps, ⟨_, hrecords.trans hrecords'⟩,
      hmoved.lists ∘ hbegun.lists, .inr hsettled⟩, hsettled⟩

/-- Rounds over whichever entries, begun by consumers, if their lines behave. -/
theorem roundsMeet (hallowed : ∀ error, ¬ allowed (.failed error))
    (hlines : outlet.LinesMeet run allowed) : outlet.RoundsMeet run allowed := by
  intro world entry h
  by_cases hentry : entry = outlet.entry
  · subst hentry
    exact (h.meets_propagate_own hallowed hlines).weaken fun _ after hafter =>
      ⟨hafter.1, fun _ => hafter.2⟩
  · exact (h.meets_propagate_other hallowed hlines hentry).weaken fun _ after hafter =>
      ⟨hafter, fun hsame => absurd hsame hentry⟩

/-! ### The lines of consumers -/

/-- Lines that follow the outlet leave it up to date, and settled once they begin a round over its
entry. -/
theorem Attached.meets_runLines (h : outlet.Attached world)
    (hallowed : ∀ error, ¬ allowed (.failed error)) (hunbound : ∀ name, allowed (.unbound name))
    (hrounds : outlet.RoundsMeet run allowed) (label : String) {lines : Program}
    (hfollows : outlet.Follows world scope lines) :
    (runLines run scope label lines).Meets world
      (fun _ after => outlet.Relay world after ∧
        ((∃ line ∈ lines, line.command.Shows world scope outlet.entry) → outlet.IsSettled after))
      allowed := by
  induction lines generalizing world with
  | nil =>
    rw [meets_runLines_nil]
    exact ⟨.refl world, by simp⟩
  | cons line rest ih =>
    refine meets_runLines_cons_of_allowed hallowed ?_
    rcases hfollows.commands line List.mem_cons_self with ⟨name, term, hcommand⟩ | ⟨entry, hshows⟩
    · rw [hcommand]
      refine meets_perform_setBinding (fun _ => True) (fun start _ =>
        (meets_evaluate scope term hunbound).weaken fun _ _ halike => ⟨halike, trivial⟩) ?_
      intro middle ref value hmiddle hname _
      generalize hlast : (middle.setBinding ref value).addEvent _ = last
      have hevent : (middle.setBinding ref value).Alike last := hlast ▸ World.alike_addEvent _ _
      have hkeeps : world.Keeps last :=
        hmiddle.toKeeps.trans ((middle.keeps_setBinding ref value).trans hevent.toKeeps)
      refine (ih (h.keeps hkeeps) (hfollows.tail.keeps hkeeps h.binding_lt)).weaken
        fun _ after hafter => ?_
      simp only [Command.Shows.keeps hkeeps] at hafter
      have hshown (hline : ∃ other ∈ line :: rest, other.command.Shows world scope outlet.entry) :
          ∃ other ∈ rest, other.command.Shows world scope outlet.entry := by
        obtain ⟨other, hother, hshows⟩ := hline
        rcases List.mem_cons.mp hother with rfl | hother
        · obtain ⟨_, _, _, _, heq, -⟩ := hshows
          rw [hcommand] at heq
          cases heq
        · exact ⟨other, hother, hshows⟩
      by_cases href : ref = outlet.binding
      · -- The variable has changed, so only the round that follows makes up for it.
        have hassigns : line.command.Assigns world outlet.binding :=
          .of_keeps hmiddle.toKeeps h.binding_lt ⟨name, term, hcommand, href ▸ hname⟩
        have hsettled := hafter.2 (hfollows.shown [] line rest rfl hassigns)
        have hset : outlet.Records [] middle (middle.setBinding ref value) := ⟨rfl, rfl⟩
        obtain ⟨newer, hrecords⟩ := hmiddle.relay.records
        obtain ⟨newest, hrecords'⟩ := (hevent.relay.trans hafter.1).records
        refine ⟨⟨hkeeps.trans hafter.1.toKeeps,
          ⟨_, (hrecords.trans hset).trans hrecords'⟩, fun hlists => ?_, .inr hsettled⟩,
          fun _ => hsettled⟩
        have hlistsMiddle := hmiddle.relay.lists hlists
        have hlistsSet : outlet.Lists (middle.setBinding ref value) := hlistsMiddle
        exact (hevent.relay.trans hafter.1).lists hlistsSet
      · have hset := @relay_setBinding outlet middle ref href value
        refine ⟨hmiddle.relay.trans (hset.trans (hevent.relay.trans hafter.1)), fun hline => ?_⟩
        exact hafter.2 (hshown hline)
    · obtain ⟨name, term, id, module, hcommand, hname, hmodule, hentry⟩ := id hshows
      rw [hcommand]
      have hround (start : World) (hstart : world.Alike start) :
          (propagate run entry).Meets start
            (fun _ after => start.Keeps after ∧ ∀ last, after.Alike last →
              outlet.Relay world last ∧ (entry = outlet.entry → outlet.IsSettled last)) allowed := by
        refine (hrounds entry (h.keeps hstart.toKeeps)).weaken fun _ after hafter => ?_
        refine ⟨hafter.1.toKeeps, fun last hlast => ⟨?_, fun hsame => ?_⟩⟩
        · exact hstart.relay.trans (hafter.1.trans hlast.relay)
        · exact hlast.relay.settled (hafter.2 hsame)
      refine (meets_perform_propagate hname hmodule hentry
        (fun start _ => meets_evaluate scope term hunbound) hround).weaken fun answer middle hmiddle => ?_
      generalize hlast : middle.addEvent _ = last
      have hevent : middle.Alike last := hlast ▸ World.alike_addEvent _ _
      have hrelay := hmiddle.1.trans hevent.relay
      have hkeeps := hrelay.toKeeps
      refine (ih (h.keeps hkeeps) (hfollows.tail.keeps hkeeps h.binding_lt)).weaken
        fun _ after hafter => ⟨hrelay.trans hafter.1, ?_⟩
      simp only [Command.Shows.keeps hkeeps] at hafter
      rintro ⟨other, hother, hshown⟩
      rcases List.mem_cons.mp hother with rfl | hother
      · exact hafter.1.settled (hevent.relay.settled (hmiddle.2 (hshows.unique hshown)))
      · exact hafter.2 ⟨other, hother, hshown⟩

/-- However deep callbacks may be nested, the lines of consumers leave the outlet up to date. -/
theorem linesMeet (outlet : Outlet) (depth : Nat) :
    outlet.LinesMeet (runner depth) fun fault => ∀ error, fault ≠ .failed error := by
  have hallowed (error : LinkError) : ¬ ∀ other, Fault.failed error ≠ .failed other :=
    fun h => h error rfl
  induction depth with
  | zero =>
    intro world scope lines label _ _
    exact Effect.meets_throw.mpr fun error h => by cases h
  | succ depth ih =>
    intro world scope lines label h hfollows
    refine (h.meets_runLines hallowed (fun name error h => by cases h)
      (roundsMeet hallowed ih) label hfollows).weaken fun _ after hafter => hafter.1

/-- **Old values.** A round over an entry that ends leaves the entry's namespace showing what the
exported variable holds, and a consumer with an old value exactly if that is what the consumer was
handed last since the provider of the variable was last asked. The namespaces listed with a batch
show what its first consumer was handed last. -/
theorem lastHanded_iff {depth : Nat} {after : World} {value : Value}
    (hattached : outlet.Attached world)
    (hnoted : outlet.seen world = outlet.lastHanded? world.calls)
    (houtcome : (propagate (runner depth) outlet.entry).outcome world = (.ok (), after))
    (hvalue : outlet.current after = some value) :
    outlet.shown after = some value ∧
      (outlet.lastHanded? after.calls = some value ↔
        ∀ other, outlet.lastHandedSince? after.calls = some other → other = value) ∧
      ∀ space ∈ outlet.listed after,
        after.member? space outlet.name = outlet.lastHanded? after.calls := by
  have hmeets := hattached.meets_propagate_own (fun _ h => h _ rfl) (outlet.linesMeet depth)
  obtain ⟨hrelay, hsettled⟩ := hmeets.of_outcome_ok houtcome
  have hdone := hsettled value hvalue
  obtain ⟨newer, hrecords⟩ := hrelay.records
  have hseen : outlet.seen after = outlet.lastHanded? after.calls := by
    rw [hrecords.seen, hrecords.calls, lastHanded?_append, hnoted]
  refine ⟨hdone.shown, ⟨fun hlast other hother => ?_, fun hsince => ?_⟩, fun space hspace => ?_⟩
  · exact Option.some.inj ((lastHanded?_of_since hother).symm.trans hlast)
  · cases hhanded : outlet.lastHandedSince? after.calls with
    | none => rw [← hseen, hdone.seen hhanded]
    | some other => rw [lastHanded?_of_since hhanded, hsince other hhanded]
  · rw [hdone.lists space hspace, hseen]

/-! ### An example -/

/-- Two modules consume what a third one exports, and the first consumer assigns the exported variable
anew. -/
def rewriting : Program :=
  [(Command.createModule "m" "m" true).line, (Command.createModule "a" "a" true).line,
   (Command.createModule "b" "b" true).line,
   (Command.createBinding "x" (some (.text "old"))).line,
   (Command.provide (some "m") [(.fixed "x", .binding "x")] false).line,
   (Command.watch (some "a") (.exportsOf "m")
     { consumers := some [(.fixed "x", .callback none
         [(Command.setBinding "x" (.text "new")).line,
          (Command.propagate (some "m") .undefined).line])], key := none, spaces := [] }).line,
   (Command.watch (some "b") (.exportsOf "m")
     { consumers := some [(.fixed "x", .assign "y")], key := none, spaces := [] }).line]

/-- The world in which they have registered. -/
def rewritten : World :=
  (World.ofHost default).afterwards 4 rewriting

theorem batches_rewritten : rewritten.batches.items.toList =
    [{ key := none, consumer := ⟨1⟩, spaces := [], isActive := true, seen := [], written := []
       consumers := ⟨[("x", .callback none
         [(Command.setBinding "x" (.text "new")).line,
          (Command.propagate (some "m") .undefined).line] {})]⟩ },
     { key := none, consumer := ⟨2⟩, spaces := [], isActive := true, seen := [], written := []
       consumers := ⟨[("x", .assign ⟨1⟩)]⟩ }] := by rfl

theorem providers_rewritten : rewritten.providers.items.toList = [⟨.binding ⟨0⟩, 0⟩] := by rfl

theorem entries_rewritten : rewritten.entries.items.toList =
    [{ space := ⟨0⟩, owner := some ⟨0⟩, isLoaded := false
       slots := ⟨[("x", ⟨⟨0⟩, false, none⟩)]⟩, batches := [⟨0⟩, ⟨1⟩] },
     { space := ⟨1⟩, owner := some ⟨1⟩, isLoaded := false, slots := ⟨[]⟩, batches := [] },
     { space := ⟨2⟩, owner := some ⟨2⟩, isLoaded := false, slots := ⟨[]⟩, batches := [] }] := by rfl

/-- The consumer whose turn comes after that of the rewriting one. -/
def overtaken : Outlet :=
  ⟨⟨0⟩, "x", ⟨0⟩, ⟨0⟩, ⟨1⟩, "x"⟩

theorem follows_rewritten : overtaken.Follows rewritten {}
    [(Command.setBinding "x" (.text "new")).line, (Command.propagate (some "m") .undefined).line] where
  commands := by
    intro line hline
    rcases List.mem_cons.mp hline with rfl | hline
    · exact .inl ⟨_, _, rfl⟩
    · rw [List.mem_singleton] at hline
      subst hline
      exact .inr ⟨⟨0⟩, _, _, "m", ⟨0⟩, rfl, rfl, rfl, rfl⟩
  shown := by
    intro before line later hlines hassigns
    rcases before with _ | ⟨first, _ | ⟨second, rest⟩⟩
    · obtain ⟨-, rfl⟩ := List.cons.inj hlines
      exact ⟨_, List.mem_singleton_self _, _, _, "m", ⟨0⟩, rfl, rfl, rfl, rfl⟩
    · obtain ⟨rfl, -⟩ := List.cons.inj (List.cons.inj hlines).2
      obtain ⟨name, term, hcommand, -⟩ := hassigns
      cases hcommand
    · simp at hlines

theorem attached_rewritten : overtaken.Attached rewritten where
  exported := by
    rw [show (rewritten.entry overtaken.entry).exported = [("x", ⟨0⟩, false)] from rfl]
    exact List.mem_singleton_self _
  names := by
    rw [show (rewritten.entry overtaken.entry).exported = [("x", ⟨0⟩, false)] from rfl]
    simp
  source := rfl
  batch_mem := by
    rw [show (rewritten.entry overtaken.entry).batches = [⟨0⟩, ⟨1⟩] from rfl]
    simp [overtaken]
  concerned := by
    rw [show ((rewritten.batch overtaken.batch).concerned overtaken.name).map (·.1) = ["x"] from rfl]
    exact List.mem_singleton_self _
  binding_lt := by decide
  batch_lt := by decide
  space_lt := by decide
  listed_lt := by
    rw [show (rewritten.batch overtaken.batch).spaces = [] from rfl]
    simp
  other_entry := by
    intro entry hentry row hrow
    have hnone : (rewritten.entry entry).exported = [] := by
      obtain ⟨_ | _ | _ | index⟩ := entry
      · exact absurd rfl hentry
      · rfl
      · rfl
      · unfold World.entry
        rw [Store.get_of_size_le _ (show 3 ≤ index + 1 + 1 + 1 by omega)]
        rfl
    rw [hnone] at hrow
    cases hrow
  not_listed := by
    intro entry _
    rw [show (rewritten.batch overtaken.batch).spaces = [] from rfl]
    simp
  other_batch := by
    intro batch space hspace
    have hnone : (rewritten.batch batch).spaces = [] := by
      rcases Store.get_cases rewritten.batches batch.index with h | h
      · unfold World.batch
        rw [h]
        rfl
      · rw [batches_rewritten] at h
        unfold World.batch
        simp only [List.mem_cons, List.not_mem_nil, or_false] at h
        rcases h with h | h <;> rw [h]
    rw [hnone] at hspace
    cases hspace
  plain := by
    intro ref
    rcases Store.get_cases rewritten.providers ref.index with h | h
    · unfold World.provider
      rw [h]
      rfl
    · rw [providers_rewritten, List.mem_singleton] at h
      unfold World.provider
      rw [h]
      rfl
  active := by
    intro entry batch hbatch
    have hbatches : batch = ⟨0⟩ ∨ batch = ⟨1⟩ := by
      unfold World.entry at hbatch
      rcases Store.get_cases rewritten.entries entry.index with h | h
      · rw [h] at hbatch
        cases hbatch
      · rw [entries_rewritten] at h
        simp only [List.mem_cons, List.not_mem_nil, or_false] at h
        rcases h with h | h | h <;> rw [h] at hbatch
        · simpa using hbatch
        · cases hbatch
        · cases hbatch
    rcases hbatches with rfl | rfl <;> rfl
  accepts := by
    intro batch row hrow
    unfold World.batch at hrow
    rcases Store.get_cases rewritten.batches batch.index with h | h
    · rw [h] at hrow
      cases hrow
    · rw [batches_rewritten] at h
      simp only [List.mem_cons, List.not_mem_nil, or_false] at h
      rcases h with h | h <;> rw [h] at hrow <;> rw [List.mem_singleton] at hrow <;> subst hrow
      · exact follows_rewritten
      · exact fun hsame => absurd (congrArg BindingRef.index hsame) (by decide)

/-- What becomes of a round over the exporting module's entry. -/
def rewrittenRound : Except Fault Unit × World :=
  (propagate (runner 2) overtaken.entry).outcome rewritten

theorem outcome_rewritten : (propagate (runner 2) overtaken.entry).outcome rewritten =
    (.ok (), rewrittenRound.2) := by
  have hok : rewrittenRound.1.isOk = true := by decide +kernel
  change rewrittenRound = _
  cases hround : rewrittenRound with
  | mk result after =>
    cases result with
    | error fault =>
      rw [hround] at hok
      cases hok
    | ok value => rfl

/-- An optional value is a given one if they are the same when compared. -/
theorem eq_some_of_same {found : Option Value} {value : Value}
    (h : found.map value.same = some true) : found = some value := by
  obtain ⟨other, hother, hsame⟩ := Option.map_eq_some_iff.mp h
  rw [hother, (Value.same_iff _ _).mp hsame]

/-- The later consumer is left with the old value although the round ends well: it was handed that
value after the provider was last asked. -/
theorem lastHanded_rewritten : overtaken.Attached rewritten ∧
    overtaken.seen rewritten = overtaken.lastHanded? rewritten.calls ∧
    (propagate (runner 2) overtaken.entry).outcome rewritten = (.ok (), rewrittenRound.2) ∧
    overtaken.current rewrittenRound.2 = some (.text "new") ∧
    overtaken.lastHanded? rewrittenRound.2.calls = some (.text "old") :=
  ⟨attached_rewritten, rfl, outcome_rewritten, eq_some_of_same (by decide +kernel),
    eq_some_of_same (by decide +kernel)⟩

/-- The condition at work for that consumer. -/
theorem lastHanded_iff_rewritten :
    (propagate (runner 2) overtaken.entry).outcome rewritten = (.ok (), rewrittenRound.2) ∧
      overtaken.shown rewrittenRound.2 = some (.text "new") ∧
      (overtaken.lastHanded? rewrittenRound.2.calls = some (.text "new") ↔
        ∀ other, overtaken.lastHandedSince? rewrittenRound.2.calls = some other →
          other = .text "new") := by
  have hcurrent : overtaken.current rewrittenRound.2 = some (.text "new") :=
    eq_some_of_same (by decide +kernel)
  obtain ⟨hshown, hlast, -⟩ := lastHanded_iff attached_rewritten rfl outcome_rewritten hcurrent
  exact ⟨outcome_rewritten, hshown, hlast⟩

end Outlet

end ModuleLinkage.Ledger
