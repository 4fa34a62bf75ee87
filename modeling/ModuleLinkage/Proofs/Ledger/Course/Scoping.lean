import ModuleLinkage.Proofs.Ledger.Course.Stages
import ModuleLinkage.Proofs.Ledger.Replacement.Undoing
import ModuleLinkage.Proofs.Ledger.ScopedKey

/-!
# Keys are scoped by consumer

A module registers a batch under a key with its own id before it, so that modules that use the same
keys do not replace each other's batches. Of every run it is shown that a batch is removed from its
entry exactly when a registration takes place there under a key with the same text, and that nothing
else puts an end to it (`scoped_of_course`). For keys without a colon that is a registration by a
module with the same id under the same key. With a colon in a key the registration of another module
can have the text, and then it replaces the batch (`clashingIds_replaced`).
-/

set_option autoImplicit false

namespace ModuleLinkage.Ledger

variable {allowed : Command → Prop} {start world after : World} {stages : List World}

/-! ### Steps -/

theorem Step.exists_history {past : List World} (hstep : Step allowed past world after) :
    ∃ log, History world log after := by
  cases hstep with
  | moved hmove => exact hmove.exists_history
  | completed => exact ⟨[], .elsewhere .start (World.alike_markLoaded _ _).elsewhere⟩

theorem Step.inOrder {past : List World} (hstep : Step allowed past world after)
    (h : world.InOrder) : after.InOrder := by
  obtain ⟨log, hlog⟩ := hstep.exists_history
  exact hlog.inOrder h

/-- What a step does to batches: it registers one, or leaves what is registered and listed as it is. -/
theorem Step.registration_cases {past : List World} (hstep : Step allowed past world after) :
    (∃ entry module consumers key spaces,
      after = world.addConsumers entry module consumers key spaces) ∨
    (after.batches.size = world.batches.size ∧
      (∀ ref, (after.batch ref).registered = (world.batch ref).registered) ∧
      ∀ entry, (after.entry entry).batches = (world.entry entry).batches) := by
  have helsewhere {after : World} (h : world.Elsewhere after) :
      after.batches.size = world.batches.size ∧
        (∀ ref, (after.batch ref).registered = (world.batch ref).registered) ∧
        ∀ entry, (after.entry entry).batches = (world.entry entry).batches :=
    ⟨h.batchCount, fun ref => congrArg Batch.registered (h.batch ref), h.listed⟩
  have hkeeps {after : World} (h : world.Keeps after) :
      after.batches.size = world.batches.size ∧
        (∀ ref, (after.batch ref).registered = (world.batch ref).registered) ∧
        ∀ entry, (after.entry entry).batches = (world.entry entry).batches :=
    ⟨h.batchCount, h.registered, h.batches⟩
  cases hstep with
  | moved hmove =>
    rcases hmove.batch_cases with ⟨h, -⟩ | hregistered | ⟨batch, name, value, -, rfl⟩ |
      ⟨batch, slot, name, value, -, -, rfl⟩
    · exact .inr (helsewhere h)
    · exact .inl hregistered
    · exact .inr (hkeeps (world.keeps_writeThrough batch name value))
    · exact .inr (hkeeps (world.keeps_handOver batch slot name value))
  | completed => exact .inr (helsewhere (world.alike_markLoaded _).elsewhere)

/-- What stays true of the batches that exist. -/
structure World.Outlasts (before after : World) : Prop where
  count : before.batches.size ≤ after.batches.size
  key : ∀ ref, ref.index < before.batches.size → (after.batch ref).key = (before.batch ref).key
  consumer : ∀ ref, ref.index < before.batches.size →
    (after.batch ref).consumer = (before.batch ref).consumer
  ended : ∀ ref, ref.index < before.batches.size → (before.batch ref).isActive = false →
    (after.batch ref).isActive = false
  unlisted : ∀ ref entry, ref.index < before.batches.size →
    ref ∉ (before.entry entry).batches → ref ∉ (after.entry entry).batches

namespace World.Outlasts

theorem refl (world : World) : world.Outlasts world where
  count := Nat.le_refl _
  key _ _ := rfl
  consumer _ _ := rfl
  ended _ _ := id
  unlisted _ _ _ := id

theorem trans {first second third : World} (h : first.Outlasts second)
    (h' : second.Outlasts third) : first.Outlasts third where
  count := Nat.le_trans h.count h'.count
  key ref hlt := (h'.key ref (Nat.lt_of_lt_of_le hlt h.count)).trans (h.key ref hlt)
  consumer ref hlt := (h'.consumer ref (Nat.lt_of_lt_of_le hlt h.count)).trans (h.consumer ref hlt)
  ended ref hlt := h'.ended ref (Nat.lt_of_lt_of_le hlt h.count) ∘ h.ended ref hlt
  unlisted ref entry hlt :=
    h'.unlisted ref entry (Nat.lt_of_lt_of_le hlt h.count) ∘ h.unlisted ref entry hlt

end World.Outlasts

theorem World.outlasts_addConsumers (world : World) (entry : EntryRef) (module : ModuleRef)
    (consumers : Table Consumer) (key : Option String) (spaces : List NamespaceRef) :
    world.Outlasts (world.addConsumers entry module consumers key spaces) := by
  have hrenewed := world.renewed_addConsumers entry module consumers key spaces
  constructor
  · rw [hrenewed.batchCount]
    exact Nat.le_succ _
  · intro ref hlt
    rw [hrenewed.same ref (Nat.ne_of_lt hlt)]
  · intro ref hlt
    rw [hrenewed.same ref (Nat.ne_of_lt hlt)]
  · intro ref hlt hended
    by_cases hreplaced : ref ∈ world.replacedBy entry (world.keyOf module key)
    · exact hrenewed.ended ref hlt hreplaced
    · rw [hrenewed.kept ref (Nat.ne_of_lt hlt) hreplaced]
      exact hended
  · intro ref other hlt hnot hlisted
    rw [hrenewed.batches] at hlisted
    split at hlisted
    · next hentry =>
      rcases List.mem_append.mp hlisted with hold | hnew
      · exact hnot (hentry.1 ▸ (List.mem_filter.mp hold).1)
      · rw [List.mem_singleton.mp hnew] at hlt
        exact Nat.lt_irrefl _ hlt
    · exact hnot hlisted

theorem Step.outlasts {past : List World} (hstep : Step allowed past world after) :
    world.Outlasts after := by
  rcases hstep.registration_cases with ⟨entry, module, consumers, key, spaces, rfl⟩ |
    ⟨hcount, hregistered, hlisted⟩
  · exact world.outlasts_addConsumers entry module consumers key spaces
  · constructor
    · exact Nat.le_of_eq hcount.symm
    · exact fun ref _ => congrArg (·.1) (hregistered ref)
    · exact fun ref _ => congrArg (·.2.1) (hregistered ref)
    · intro ref _ hended
      have hactive : (after.batch ref).isActive = (world.batch ref).isActive :=
        congrArg (·.2.2.2.2) (hregistered ref)
      rw [hactive]
      exact hended
    · intro ref entry _ hnot
      rw [hlisted]
      exact hnot

theorem Course.inOrder {host : Host} (h : Course allowed (World.ofHost host) stages)
    {rest : List World} (hworld : world :: rest <:+ stages) : world.InOrder :=
  h.invariant (inOrder_ofHost host) Step.inOrder world (hworld.subset List.mem_cons_self)

theorem Course.outlasts (h : Course allowed start stages) {earlier later : World}
    {before between : List World} (hlater : later :: between <:+ stages)
    (hearlier : earlier :: before <:+ later :: between) : earlier.Outlasts later := by
  by_contra hnot
  obtain ⟨next, world, rest, hnext, -, hworld, hlost⟩ :=
    exists_loss earlier.Outlasts hearlier (.refl earlier) hnot
  exact hlost (hworld.trans (h.step_of_suffix (hnext.trans hlater)).outlasts)

/-! ### Registrations of a run -/

/-- A run comes to a registration: from `world` the next step registers consumers of `module` at `entry`
under `key`. -/
def Registers (stages : List World) (world : World) (rest : List World) (entry : EntryRef)
    (module : ModuleRef) (key : Option String) : Prop :=
  ∃ consumers spaces,
    world.addConsumers entry module consumers key spaces :: world :: rest <:+ stages

/-- Each batch was registered by its consumer, under a key with the consumer's id before it. -/
theorem Course.exists_registers {host : Host} (h : Course allowed (World.ofHost host) stages)
    {rest : List World} (hworld : world :: rest <:+ stages) {batch : BatchRef}
    (hlt : batch.index < world.batches.size) :
    ∃ earlier before entry key, Registers (world :: rest) earlier before entry
      (world.batch batch).consumer key ∧ batch = ⟨earlier.batches.size⟩ ∧
      (world.batch batch).key = key.map (World.scopedKey
        (earlier.module (world.batch batch).consumer).id) := by
  have hcourse := h.of_suffix hworld
  obtain ⟨before, hstart⟩ := hcourse.exists_start
  obtain ⟨next, earlier, past, hnext, -, hnone, hthere⟩ :=
    exists_loss (fun world => ¬ batch.index < world.batches.size) hstart (Nat.not_lt_zero _)
      (not_not_intro hlt)
  rw [not_not] at hthere
  rcases (hcourse.step_of_suffix hnext).registration_cases with
    ⟨entry, module, consumers, key, spaces, rfl⟩ | ⟨hcount, -, -⟩
  · have hrenewed := earlier.renewed_addConsumers entry module consumers key spaces
    have hbatch : batch = ⟨earlier.batches.size⟩ := by
      rw [hrenewed.batchCount] at hthere
      cases batch
      exact congrArg BatchRef.mk (Nat.le_antisymm (Nat.le_of_lt_succ hthere) (Nat.le_of_not_lt hnone))
    have houtlasts := h.outlasts hworld ((List.suffix_refl _).trans hnext)
    have hconsumer : (world.batch batch).consumer = module := by
      rw [houtlasts.consumer batch hthere, hbatch, hrenewed.added]
    refine ⟨earlier, past, entry, key, ?_, hbatch, ?_⟩
    · rw [hconsumer]
      exact ⟨consumers, spaces, hnext⟩
    · rw [houtlasts.key batch hthere, hconsumer, hbatch, hrenewed.added]
      rfl
  · exact absurd (hcount ▸ hthere) hnone

/-- A registration removes the batches that are listed at its entry under a key with its text. -/
theorem World.InOrder.mem_addConsumers_iff (h : world.InOrder) {entry : EntryRef} {batch : BatchRef}
    (hlisted : batch ∈ (world.entry entry).batches) (other : EntryRef) (module : ModuleRef)
    (consumers : Table Consumer) (key : Option String) (spaces : List NamespaceRef) :
    batch ∈ ((world.addConsumers other module consumers key spaces).entry entry).batches ↔
      batch ∉ world.replacedBy other (world.keyOf module key) := by
  have hold : batch ≠ ⟨world.batches.size⟩ := by
    rintro rfl
    exact Nat.lt_irrefl _ (h.lt hlisted)
  rw [h.mem_renewed (world.renewed_addConsumers other module consumers key spaces)]
  simp [hlisted, hold]

/-- A batch is removed by a registration at its entry under a key with the same text, which puts an end
to it. -/
theorem Step.removed {past : List World} (hstep : Step allowed past world after)
    (horder : world.InOrder) {entry : EntryRef} {batch : BatchRef}
    (hlisted : batch ∈ (world.entry entry).batches)
    (hremoved : batch ∉ (after.entry entry).batches) :
    ∃ module consumers key spaces,
      after = world.addConsumers entry module consumers (some key) spaces ∧
      (world.batch batch).key = some (World.scopedKey (world.module module).id key) ∧
      (after.batch batch).isActive = false := by
  rcases hstep.registration_cases with ⟨other, module, consumers, key, spaces, rfl⟩ | ⟨-, -, hsame⟩
  · rw [horder.mem_addConsumers_iff hlisted, not_not] at hremoved
    have hended := (world.renewed_addConsumers other module consumers key spaces).ended batch
      (horder.lt hlisted) hremoved
    obtain ⟨hthere, hsome, hkey⟩ := World.InOrder.mem_replacedBy.mp hremoved
    obtain rfl := horder.apart hlisted hthere
    obtain ⟨key, rfl⟩ : ∃ text, key = some text := by
      cases key with
      | none => cases hsome
      | some text => exact ⟨text, rfl⟩
    exact ⟨module, consumers, key, spaces, rfl, hkey, hended⟩
  · rw [hsame] at hremoved
    exact absurd hlisted hremoved

/-- What is listed no more was removed by a registration on the way, and is at its end. -/
theorem Course.exists_removal {host : Host} (h : Course allowed (World.ofHost host) stages)
    {earlier later : World} {before between : List World} (hlater : later :: between <:+ stages)
    (hearlier : earlier :: before <:+ later :: between) {entry : EntryRef} {batch : BatchRef}
    (hlisted : batch ∈ (earlier.entry entry).batches)
    (hremoved : batch ∉ (later.entry entry).batches) :
    ∃ world rest module key, Registers (later :: between) world rest entry module (some key) ∧
      earlier :: before <:+ world :: rest ∧ (later.batch batch).isActive = false ∧
      (earlier.batch batch).key = some (World.scopedKey (world.module module).id key) := by
  obtain ⟨next, world, rest, hnext, hbefore, hworld, hlost⟩ :=
    exists_loss (fun world => batch ∈ (world.entry entry).batches) hearlier hlisted hremoved
  have hsuffix : world :: rest <:+ stages := (List.suffix_cons _ _).trans (hnext.trans hlater)
  have horder := h.inOrder hsuffix
  obtain ⟨module, consumers, key, spaces, rfl, hkey, hended⟩ :=
    (h.step_of_suffix (hnext.trans hlater)).removed horder hworld hlost
  have hlt := Nat.lt_of_lt_of_le (horder.lt hworld)
    (world.outlasts_addConsumers entry module consumers (some key) spaces).count
  refine ⟨world, rest, module, key, ⟨consumers, spaces, hnext⟩, hbefore, ?_, ?_⟩
  · exact (h.outlasts hlater ((List.suffix_refl _).trans hnext)).ended batch hlt hended
  · have hearlierlt := (h.inOrder (hearlier.trans hlater)).lt hlisted
    rw [← hkey]
    exact ((h.outlasts hsuffix hbefore).key batch hearlierlt).symm

/-- After a registration at its entry under a key with the same text a batch is not listed there: the
registration removes it, unless it was removed before. -/
theorem Course.not_mem_of_registers {host : Host} (h : Course allowed (World.ofHost host) stages)
    {earlier later : World} {before between : List World} (hlater : later :: between <:+ stages)
    {entry : EntryRef} {batch : BatchRef} (hlisted : batch ∈ (earlier.entry entry).batches)
    {rest : List World} {module : ModuleRef} {key : String}
    (hregisters : Registers (later :: between) world rest entry module (some key))
    (hbefore : earlier :: before <:+ world :: rest)
    (hkey : (earlier.batch batch).key = some (World.scopedKey (world.module module).id key)) :
    batch ∉ (later.entry entry).batches := by
  obtain ⟨consumers, spaces, hnext⟩ := hregisters
  have hsuffix : world :: rest <:+ stages := (List.suffix_cons _ _).trans (hnext.trans hlater)
  have hearlierlt := (h.inOrder (hbefore.trans hsuffix)).lt hlisted
  have houtlasts := h.outlasts hsuffix hbefore
  have hlt := Nat.lt_of_lt_of_le hearlierlt houtlasts.count
  have hadded := world.outlasts_addConsumers entry module consumers (some key) spaces
  have hgone : batch ∉
      ((world.addConsumers entry module consumers (some key) spaces).entry entry).batches := by
    by_cases hworld : batch ∈ (world.entry entry).batches
    · rw [(h.inOrder hsuffix).mem_addConsumers_iff hworld, not_not]
      refine World.InOrder.mem_replacedBy.mpr ⟨hworld, rfl, ?_⟩
      rw [houtlasts.key batch hearlierlt, hkey]
      rfl
    · exact hadded.unlisted batch entry hlt hworld
  exact (h.outlasts hlater ((List.suffix_refl _).trans hnext)).unlisted batch entry
    (Nat.lt_of_lt_of_le hlt hadded.count) hgone

/-! ### The result -/

/-- What becomes of batches in the worlds that a run passes. -/
structure Scoped (stages : List World) : Prop where
  /-- Each batch was registered by its consumer, under a key with the consumer's id before it. -/
  registered : ∀ {world : World} {rest : List World}, world :: rest <:+ stages →
    ∀ batch : BatchRef, batch.index < world.batches.size →
      ∃ earlier before entry key, Registers (world :: rest) earlier before entry
        (world.batch batch).consumer key ∧ batch = ⟨earlier.batches.size⟩ ∧
        (world.batch batch).key = key.map (World.scopedKey
          (earlier.module (world.batch batch).consumer).id)
  /-- Batches are active as long as an entry lists them. -/
  active : ∀ world ∈ stages, ∀ entry, ∀ batch ∈ (world.entry entry).batches,
    (world.batch batch).isActive = true
  /-- A batch without a key is not removed. -/
  unkeyed : ∀ {earlier later : World} {before between : List World},
    later :: between <:+ stages → earlier :: before <:+ later :: between →
    ∀ entry, ∀ batch ∈ (earlier.entry entry).batches, (earlier.batch batch).key = none →
      batch ∈ (later.entry entry).batches
  /-- A batch is removed exactly by a registration at its entry that clashes with its own. -/
  removed_iff : ∀ {earlier later : World} {before between : List World},
    later :: between <:+ stages → earlier :: before <:+ later :: between →
    ∀ entry, ∀ batch ∈ (earlier.entry entry).batches, ∀ id key,
      (earlier.batch batch).key = some (World.scopedKey id key) →
      (batch ∉ (later.entry entry).batches ↔ ∃ world rest module other,
        Registers (later :: between) world rest entry module (some other) ∧
        earlier :: before <:+ world :: rest ∧ Clash id key (world.module module).id other)
  /-- A batch that was removed is at its end. -/
  ended : ∀ {earlier later : World} {before between : List World},
    later :: between <:+ stages → earlier :: before <:+ later :: between →
    ∀ entry, ∀ batch ∈ (earlier.entry entry).batches, batch ∉ (later.entry entry).batches →
      (later.batch batch).isActive = false
  /-- A registration changes no batch that it does not remove. -/
  kept : ∀ world ∈ stages, ∀ entry module consumers key spaces,
    ∀ other, ∀ batch ∈ (world.entry other).batches,
      batch ∈ ((world.addConsumers entry module consumers key spaces).entry other).batches →
      (world.addConsumers entry module consumers key spaces).batch batch = world.batch batch
  /-- A registration removes from a namespace only what batches have written there that it removes from
  their entry. -/
  names : ∀ world ∈ stages, ∀ entry module consumers key spaces space,
    ∀ row ∈ (world.space space).members.rows,
      row ∉ ((world.addConsumers entry module consumers key spaces).space space).members.rows →
      ∃ batch ∈ (world.entry entry).batches,
        batch ∉ ((world.addConsumers entry module consumers key spaces).entry entry).batches ∧
        space ∈ (world.batch batch).spaces ∧ row.1 ∈ (world.batch batch).written
  /-- Keys without a colon clash only if they and the ids are the same. -/
  plain : ∀ id key other otherKey : String, ':' ∉ key.toList → ':' ∉ otherKey.toList →
    (Clash id key other otherKey ↔ other = id ∧ otherKey = key)
  /-- Whatever runs next goes on with the run. -/
  continues : ∀ world ∈ stages, world.Continues fun _ => True

/-- **Keys are scoped by consumer, as far as their texts tell.** In every run a batch is removed
from its entry exactly when a registration takes place there under a key with the same text, which
for keys without a colon is one by a module with the same id under the same key; and nothing else
deactivates a batch or removes what it has written. -/
theorem scoped_of_course {host : Host}
    (h : Course (fun _ => True) (World.ofHost host) stages) : Scoped stages := by
  have horder := h.invariant (inOrder_ofHost host) Step.inOrder
  constructor
  · intro world rest hsuffix batch
    exact h.exists_registers hsuffix
  · intro world hworld entry batch
    exact (horder world hworld).active
  · intro earlier later before between hlater hearlier entry batch hlisted hkey
    by_contra hremoved
    obtain ⟨world, rest, module, other, -, -, -, hsome⟩ :=
      h.exists_removal hlater hearlier hlisted hremoved
    rw [hkey] at hsome
    cases hsome
  · intro earlier later before between hlater hearlier entry batch hlisted id key hkey
    constructor
    · intro hremoved
      obtain ⟨world, rest, module, other, hregisters, hbefore, -, hsome⟩ :=
        h.exists_removal hlater hearlier hlisted hremoved
      refine ⟨world, rest, module, other, hregisters, hbefore, ?_⟩
      exact scopedKey_eq_iff.mp (Option.some.inj (hkey.symm.trans hsome))
    · rintro ⟨world, rest, module, other, hregisters, hbefore, hclash⟩
      refine h.not_mem_of_registers hlater hlisted hregisters hbefore ?_
      rw [hkey, scopedKey_eq_iff.mpr hclash]
  · intro earlier later before between hlater hearlier entry batch hlisted hremoved
    obtain ⟨-, -, -, -, -, -, hended, -⟩ := h.exists_removal hlater hearlier hlisted hremoved
    exact hended
  · intro world hworld entry module consumers key spaces other batch hlisted hkept
    have horder := horder world hworld
    rw [horder.mem_addConsumers_iff hlisted] at hkept
    exact (world.renewed_addConsumers entry module consumers key spaces).kept batch
      (Nat.ne_of_lt (horder.lt hlisted)) hkept
  · intro world hworld entry module consumers key spaces space row hrow hgone
    rw [(world.renewed_addConsumers entry module consumers key spaces).rows] at hgone
    simp only [List.mem_filter, hrow, true_and, Bool.not_eq_true', Bool.not_eq_false,
      List.any_eq_true, Bool.and_eq_true, decide_eq_true_eq, List.contains_iff_mem] at hgone
    obtain ⟨batch, hreplaced, hspace, hwritten⟩ := hgone
    have hlisted := (World.InOrder.mem_replacedBy.mp hreplaced).1
    refine ⟨batch, hlisted, ?_, hspace, hwritten⟩
    rw [(horder world hworld).mem_addConsumers_iff hlisted, not_not]
    exact hreplaced
  · exact fun _ _ _ _ => clash_iff_of_plain
  · exact fun world _ => world.confined_true.continues

/-! ### Examples -/

/-- A module with exports, two modules with the ids `a:b` and `a`, and some of their subscriptions
to the exports, each under a key. -/
def subscriptionLines (subscriptions : List (String × String)) : Program :=
  [(Command.createModule "e" "e" true).line, (Command.createModule "p" "a:b" true).line,
   (Command.createModule "q" "a" true).line] ++
  subscriptions.map fun (module, key) => (Command.watch (some module) (.exportsOf "e")
    { consumers := some [(.fixed "x", .assign "y")], key := some key, spaces := [] }).line

/-- The world after these subscriptions. -/
def subscribed (subscriptions : List (String × String)) : World :=
  (World.ofHost default).afterwards 4 (subscriptionLines subscriptions)

/-- The result where the modules use one key: only a subscription of the same module replaces one. -/
theorem scoped_subscribed : ∃ stages,
    Course (fun _ => True) (World.ofHost default)
      (subscribed [("p", "c"), ("q", "c"), ("q", "c")] :: stages) ∧
    Scoped (subscribed [("p", "c"), ("q", "c"), ("q", "c")] :: stages) ∧
    ((subscribed [("p", "c"), ("q", "c"), ("q", "c")]).entry ⟨1⟩).batches = [⟨0⟩, ⟨2⟩] := by
  have hgoes : World.GoesOn (fun _ => True) (World.ofHost default)
      (subscribed [("p", "c"), ("q", "c"), ("q", "c")]) :=
    (World.ofHost default).confined_true.continues.program 4 (Program.confined_true _)
  obtain ⟨stages, hcourse, -⟩ := hgoes _ [] .start
  exact ⟨stages, hcourse, scoped_of_course hcourse, by decide⟩

/-- Where one id continues the other one with a colon, and a key has a colon, a subscription of one
module replaces that of the other. -/
theorem clashingIds_replaced :
    ((subscribed [("p", "c")]).entry ⟨1⟩).batches = [⟨0⟩] ∧
    ((subscribed [("p", "c")]).batch ⟨0⟩).consumer = ⟨1⟩ ∧
    ((subscribed [("p", "c"), ("q", "b:c")]).entry ⟨1⟩).batches = [⟨1⟩] ∧
    ((subscribed [("p", "c"), ("q", "b:c")]).batch ⟨0⟩).isActive = false ∧
    ((subscribed [("p", "c"), ("q", "b:c")]).batch ⟨1⟩).consumer = ⟨2⟩ ∧
    ((subscribed [("p", "c"), ("q", "b:c")]).module ⟨1⟩).id = "a:b" ∧
    ((subscribed [("p", "c"), ("q", "b:c")]).module ⟨2⟩).id = "a" := by
  decide

end ModuleLinkage.Ledger
