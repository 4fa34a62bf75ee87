import ModuleLinkage.Proofs.Ledger.Course.Running
import ModuleLinkage.Proofs.Ledger.Reentry.Overtaking

/-!
# Courses

A course (`Course`) is the list of all worlds that a run has passed, latest first. From each world
to the next one leads one step (`Step`): a move, or the end of a call that shows a module's values.
That a world comes before another one in a course is said of the rests of the list that begin with
them.

Whatever runs goes on with the course of the world in which it begins (`goesOn_runner`,
`Course.continues`). So what holds at the start and is kept by each step holds in every world that a run
ever passes (`Course.invariant`), and what holds in one world of a course and in a later one does not is
lost by one of the steps between them (`exists_loss`).
-/

set_option autoImplicit false

namespace ModuleLinkage.Ledger

/-- What may come next in a course that is at `world` and has passed the worlds `past`. -/
inductive Step (allowed : Command → Prop) (past : List World) (world : World) : World → Prop
  | moved {after : World} (h : Move allowed world after) : Step allowed past world after
  /-- A call that shows a module's values ends by marking an entry as loaded. The course has passed the
  world in which the call began and then the one in which its round ended. -/
  | completed {depth : Nat} {module : ModuleRef} {called rounded : World} {entry : EntryRef}
      {before between : List World}
      (h : Completing (runner depth) module called rounded entry world)
      (hcalled : called :: before <:+ rounded :: between)
      (hrounded : rounded :: between <:+ world :: past) :
      Step allowed past world (world.markLoaded entry)

/-- The worlds that a run has passed, latest first. -/
inductive Course (allowed : Command → Prop) (start : World) : List World → Prop
  | start : Course allowed start [start]
  | step {past : List World} {world after : World} (h : Course allowed start (world :: past))
      (hstep : Step allowed past world after) : Course allowed start (after :: world :: past)

variable {allowed : Command → Prop} {start world after : World} {past stages : List World}

/-! ### Worlds of a course -/

theorem Step.confined (h : Step allowed past world after) (hworld : world.Confined allowed) :
    after.Confined allowed := by
  cases h with
  | moved h => exact h.confined hworld
  | completed => exact hworld.of_parts rfl rfl rfl

namespace Course

/-- What a course has passed up to one of its worlds is a course. -/
theorem of_suffix (h : Course allowed start stages) (hsuffix : world :: past <:+ stages) :
    Course allowed start (world :: past) := by
  induction h with
  | start =>
    rcases List.suffix_cons_iff.mp hsuffix with heq | hnil
    · rw [heq]
      exact .start
    · cases List.suffix_nil.mp hnil
  | step h hstep ih =>
    rcases List.suffix_cons_iff.mp hsuffix with heq | hrest
    · rw [heq]
      exact .step h hstep
    · exact ih hrest

/-- A course ends with the world in which it began. -/
theorem exists_start (h : Course allowed start stages) : ∃ rest, start :: rest <:+ stages := by
  induction h with
  | start => exact ⟨[], List.suffix_refl _⟩
  | step _ _ ih =>
    obtain ⟨rest, hrest⟩ := ih
    exact ⟨rest, hrest.trans (List.suffix_cons _ _)⟩

/-- From each world of a course a step leads to the next one. -/
theorem step_of_suffix (h : Course allowed start stages) (hsuffix : after :: world :: past <:+ stages) :
    Step allowed past world after := by
  cases h.of_suffix hsuffix with
  | step _ hstep => exact hstep

/-- What holds at the start and is kept by each step holds in every world of a course. -/
theorem invariant {holds : World → Prop} (h : Course allowed start stages) (hstart : holds start)
    (hstep : ∀ {past world after}, Step allowed past world after → holds world → holds after) :
    ∀ world ∈ stages, holds world := by
  induction h with
  | start => exact List.forall_mem_singleton.mpr hstart
  | step _ hlast ih =>
    exact List.forall_mem_cons.mpr ⟨hstep hlast (ih _ List.mem_cons_self), ih⟩

/-- The worlds of a course are confined if the first one is. -/
theorem confined (h : Course allowed start (world :: past)) (hstart : start.Confined allowed) :
    world.Confined allowed :=
  h.invariant hstart Step.confined world List.mem_cons_self

end Course

/-- What holds in one world and not in a later one is lost from one world to the next between them. -/
theorem exists_loss (holds : World → Prop) {earlier later : World} {before between : List World}
    (hsuffix : earlier :: before <:+ later :: between) (hearlier : holds earlier)
    (hlater : ¬ holds later) :
    ∃ next world rest, next :: world :: rest <:+ later :: between ∧
      earlier :: before <:+ world :: rest ∧ holds world ∧ ¬ holds next := by
  induction between generalizing later with
  | nil =>
    rcases List.suffix_cons_iff.mp hsuffix with heq | hnil
    · obtain ⟨rfl, -⟩ := List.cons.inj heq
      exact absurd hearlier hlater
    · cases List.suffix_nil.mp hnil
  | cons world rest ih =>
    rcases List.suffix_cons_iff.mp hsuffix with heq | hrest
    · obtain ⟨rfl, -⟩ := List.cons.inj heq
      exact absurd hearlier hlater
    · by_cases hworld : holds world
      · exact ⟨later, world, rest, List.suffix_refl _, hrest, hworld, hlater⟩
      · obtain ⟨next, found, others, hfound, hbefore, hlost⟩ := ih hrest hworld
        exact ⟨next, found, others, hfound.trans (List.suffix_cons _ _), hbefore, hlost⟩

/-! ### Going on with a course -/

/-- Every course that is at the first world goes on to the second one. -/
def World.GoesOn (allowed : Command → Prop) (world after : World) : Prop :=
  ∀ start past, Course allowed start (world :: past) →
    ∃ stages, Course allowed start (after :: stages) ∧ world :: past <:+ after :: stages

theorem admits_goesOn : Admits allowed (World.GoesOn allowed) where
  refl _ _ past h := ⟨past, h, List.suffix_refl _⟩
  trans hfirst hsecond start past h := by
    obtain ⟨stages, hcourse, hsuffix⟩ := hfirst start past h
    obtain ⟨stages', hcourse', hsuffix'⟩ := hsecond start stages hcourse
    exact ⟨stages', hcourse', hsuffix.trans hsuffix'⟩
  move hmove start past h := ⟨_, .step h (.moved hmove), List.suffix_cons _ _⟩

/-- When a call that shows a module's values comes to its end, courses go on with it. -/
theorem goesOn_completed {depth : Nat} {module : ModuleRef} {called rounded : World}
    {entry : EntryRef} (hcompleting : Completing (runner depth) module called rounded entry world)
    (hround : World.GoesOn allowed called rounded) :
    World.GoesOn allowed called (world.markLoaded entry) := by
  intro start past h
  obtain ⟨between, hrounded, hcalled⟩ := hround start past h
  obtain ⟨rest, hworld, hsuffix⟩ : ∃ rest, Course allowed start (world :: rest) ∧
      rounded :: between <:+ world :: rest := by
    have howned : World.GoesOn allowed rounded
        (rounded.ownedEntryFor (called.module module).exports module).2 :=
      admits_goesOn.trans (admits_goesOn.move (.entryFor _)) (admits_goesOn.move (.settleOwner _ _))
    rw [hcompleting.claims] at howned
    exact howned start between hrounded
  refine ⟨_, .step hworld (.completed hcompleting hcalled hsuffix), ?_⟩
  exact (hcalled.trans hsuffix).trans (List.suffix_cons _ _)

/-- All programs go on with courses, however deep callbacks are nested. -/
theorem goesOn_runner (depth : Nat) : (runner depth).Within allowed (World.GoesOn allowed) :=
  within_runner admits_goesOn (fun _ _ _ _ _ _ => goesOn_completed) depth

theorem goesOn_afterwards (hworld : world.Confined allowed) (depth : Nat) {program : Program}
    (hprogram : Program.Confined allowed program) :
    World.GoesOn allowed world (world.afterwards depth program) := by
  induction program generalizing world with
  | nil => exact admits_goesOn.refl world
  | cons line rest ih =>
    obtain ⟨hline, hrest⟩ := Program.confined_cons.mp hprogram
    have hcleared : Move allowed world { world with events := [] } := .noted rfl
    obtain ⟨hstep, hconfined, -⟩ :=
      within_perform admits_goesOn (goesOn_runner depth) {} hline _ (hcleared.confined hworld)
    exact admits_goesOn.trans (admits_goesOn.trans (admits_goesOn.move hcleared) hstep)
      (ih hconfined hrest)

/-- Whatever runs next in a world goes on with its courses: a program, the lines of a callback, and the
rest of a round that is under way, whether it is still asking providers or already delivers. -/
structure World.Continues (allowed : Command → Prop) (world : World) : Prop where
  program : ∀ (depth : Nat) {program : Program}, Program.Confined allowed program →
    world.GoesOn allowed (world.afterwards depth program)
  callback : ∀ (depth : Nat) (scope : Scope) (label : String) {lines : Program},
    Program.Confined allowed lines →
    world.GoesOn allowed ((runner depth scope label lines).outcome world).2
  asking : ∀ (depth : Nat) (entry : EntryRef) (space : NamespaceRef) (slots : List (String × Slot)),
    world.GoesOn allowed ((refreshSlots (runner depth) entry space slots).outcome world).2
  delivering : ∀ (depth : Nat) (values : List (String × Value)) (batches : List BatchRef),
    world.GoesOn allowed ((deliverToBatches (runner depth) values batches).outcome world).2

theorem World.Confined.continues (h : world.Confined allowed) : world.Continues allowed where
  program depth _ hprogram := goesOn_afterwards h depth hprogram
  callback depth scope label _ hlines := ((goesOn_runner depth).lines scope label hlines world h).1
  asking depth entry space slots :=
    (within_refreshSlots admits_goesOn (goesOn_runner depth) entry space slots world h).1
  delivering depth values batches :=
    (within_deliverToBatches admits_goesOn (goesOn_runner depth) values batches world h).1

end ModuleLinkage.Ledger
