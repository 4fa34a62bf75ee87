import ModuleLinkage.Proofs.Ledger.ImportGraph.Wired

/-!
# How far a round moves the world

While a round over a module runs, values are passed on along chains of modules that export what they
import, and the rank of the module decreases along each chain. `ImportGraph.Drift` bounds what such
rounds change by the rank from which they started: variables that are fed by modules of higher rank
hold the same as before, and batches of such modules have seen the same. Beyond that, whatever was in
order stays in order: a copy that has the current value of an exported name
(`World.IsCurrent`) has the current value afterwards, and a local that holds what its batch has seen
last (`World.IsFed`) does so afterwards. Only the locals of deliveries that are still going on, told
by `busy`, are left out.

The two things that a round does are shown to stay within these bounds: writing values into the
namespace of the module (`ImportGraph.drift_refreshed`), and assigning a local and showing it
(`ImportGraph.drift_feed`).
-/

set_option autoImplicit false

namespace ModuleLinkage.Ledger

namespace World

/-- A copy of an exported name has what the exported variable holds. -/
def IsCurrent (world : World) (copy : Copy) (name target : String) : Prop :=
  world.copy copy name = world.content target

/-- While an exported variable holds nothing, a copy has nothing. -/
def IsUnset (world : World) (copy : Copy) (name target : String) : Prop :=
  world.content target = none → world.copy copy name = none

/-- A local holds what its batch has seen last. -/
def IsFed (world : World) (batch : BatchRef) (name target : String) : Prop :=
  world.content target = world.seen? batch name name

/-- The values that a round over some exports delivers. -/
def exportedValues (world : World) (exports : List (String × String)) : List (String × Value) :=
  exports.filterMap fun row => (world.content row.2).map (row.1, ·)

end World

namespace ImportGraph

/-- What rounds over modules up to some rank leave as it is. -/
structure Drift (graph : ImportGraph) (bound : Nat) (busy : BatchRef → String → Prop)
    (before after : World) : Prop extends before.Keeps after where
  content : ∀ {target}, (∀ shape imp name batch, graph.Feeds shape imp name target →
    before.Subscribed shape imp batch → bound < graph.rank imp.source) →
      after.content target = before.content target
  seen : ∀ {batch}, (∀ id place, before.Places id place →
    batch ∈ (before.entry place.entry).batches → bound < graph.rank id) →
      ∀ slot name, after.seen? batch slot name = before.seen? batch slot name
  current : ∀ {shape name target copy}, shape ∈ graph.modules → (name, target) ∈ shape.exports →
    before.CopyOf shape.id name copy → before.IsCurrent copy name target →
      after.IsCurrent copy name target
  unset : ∀ {shape name target copy}, shape ∈ graph.modules → (name, target) ∈ shape.exports →
    before.CopyOf shape.id name copy → before.IsUnset copy name target →
      after.IsUnset copy name target
  fed : ∀ {shape imp name target batch}, graph.Feeds shape imp name target →
    before.Subscribed shape imp batch → ¬ busy batch name → before.IsFed batch name target →
      after.IsFed batch name target

variable {graph : ImportGraph} {bound : Nat} {busy : BatchRef → String → Prop}
  {first second third : World}

/-- Where nothing that rounds are about is different, everything is as it was. -/
theorem Drift.of_alike (h : first.Alike second) :
    graph.Drift bound busy first second where
  toKeeps := h.toKeeps
  content _ := h.content _
  seen _ slot name := h.seen? _ slot name
  current _ _ _ hcurrent := by
    unfold World.IsCurrent at hcurrent ⊢
    rw [h.copy, h.content, hcurrent]
  unset _ _ _ hunset := by
    unfold World.IsUnset at hunset ⊢
    rwa [h.copy, h.content]
  fed _ _ _ hfed := by
    unfold World.IsFed at hfed ⊢
    rw [h.content, h.seen?, hfed]

namespace Drift

theorem trans (h : graph.Drift bound busy first second) (h' : graph.Drift bound busy second third) :
    graph.Drift bound busy first third where
  toKeeps := h.toKeeps.trans h'.toKeeps
  content htarget := by
    rw [h'.content fun shape imp name batch hfeeds hsubscribed =>
      htarget shape imp name batch hfeeds (h.subscribed_iff.mp hsubscribed), h.content htarget]
  seen hbatch slot name := by
    rw [h'.seen fun id place hplace hmem =>
      hbatch id place (h.places_iff.mp hplace) (h.batches place.entry ▸ hmem), h.seen hbatch]
  current hshape hexport hcopy hcurrent :=
    h'.current hshape hexport (h.copyOf_iff.mpr hcopy) (h.current hshape hexport hcopy hcurrent)
  unset hshape hexport hcopy hunset :=
    h'.unset hshape hexport (h.copyOf_iff.mpr hcopy) (h.unset hshape hexport hcopy hunset)
  fed hfeeds hsubscribed hbusy hfed :=
    h'.fed hfeeds (h.subscribed_iff.mpr hsubscribed) hbusy (h.fed hfeeds hsubscribed hbusy hfed)

/-- A round over a module, and what it sets off, changes no variable that the module exports. -/
theorem content_of_export (hgraph : graph.WellFormed) {shape : ModuleShape}
    (hshape : shape ∈ graph.modules) (h : graph.Drift (graph.rank shape.id) busy first second)
    {target : String} (htarget : shape.exportsTarget target = true) :
    second.content target = first.content target := by
  refine h.content fun other imp name batch hfeeds _ => ?_
  obtain rfl := hgraph.exportsOwn hshape hfeeds htarget
  exact rank_lt_of_feeds hgraph hfeeds htarget

/-- What holds of the locals of a delivery in its end holds without that delivery being left out. -/
theorem settle {batch : BatchRef} {name : String}
    (h : graph.Drift bound (fun other otherName => busy other otherName ∨
      other = batch ∧ otherName = name) first second)
    (hfed : ∀ {shape imp target}, graph.Feeds shape imp name target →
      first.Subscribed shape imp batch → second.IsFed batch name target) :
    graph.Drift bound busy first second where
  toKeeps := h.toKeeps
  content := h.content
  seen := h.seen
  current := h.current
  unset := h.unset
  fed {shape imp otherName target other} hfeeds hsubscribed hnotBusy hbefore := by
    by_cases hsame : other = batch ∧ otherName = name
    · obtain ⟨rfl, rfl⟩ := hsame
      exact hfed hfeeds hsubscribed
    · refine h.fed hfeeds hsubscribed (fun hbusy => ?_) hbefore
      exact hbusy.elim hnotBusy hsame

end Drift

/-- An exported name stands for a variable that counts as exported. -/
theorem exportsTarget_of_mem {shape : ModuleShape} {name target : String}
    (h : (name, target) ∈ shape.exports) : shape.exportsTarget target = true :=
  List.any_eq_true.mpr ⟨(name, target), h, beq_self_eq_true target⟩

/-! ### Assigning a local -/

/-- Assigning a local and, if it is exported, showing it moves the world no further than the rank of
the module that feeds it. Assumes: the delivery to the local is still going on, what is shown after
the assignment is current, and the other locals of the delivery are left alone. -/
theorem drift_feed {world after : World} {value : Value} {ref : BindingRef} {shape : ModuleShape}
    {imp : Import} {name target : String} {batch : BatchRef} {lower : Nat}
    (hgraph : graph.WellFormed) (hwired : graph.Wired world)
    (hfeeds : graph.Feeds shape imp name target) (hsubscribed : world.Subscribed shape imp batch)
    (hbusy : busy batch name) (hname : world.names.bindings.get? target = some ref)
    (hlower : lower ≤ graph.rank imp.source)
    (hdrift : graph.Drift lower busy (world.setBinding ref value) after)
    (hcontent : after.content target = some value)
    (hshown : ∀ row ∈ shape.exports, row.2 = target → ∀ copy,
      world.CopyOf shape.id row.1 copy → after.IsCurrent copy row.1 target) :
    graph.Drift (graph.rank imp.source) busy world after := by
  have hkeeps := world.keeps_setBinding ref value
  have hset := World.content_setBinding hwired.namesValid hname value
  have hother {other : String} (hne : other ≠ target) :
      (world.setBinding ref value).content other = world.content other := by
    rw [hset, if_neg hne]
  refine
    { toKeeps := hkeeps.trans hdrift.toKeeps
      content := ?_, seen := ?_, current := ?_, unset := ?_, fed := ?_ }
  · intro other hhigher
    have hne : other ≠ target := by
      rintro rfl
      exact Nat.lt_irrefl _ (hhigher shape imp name batch hfeeds hsubscribed)
    rw [hdrift.content, hother hne]
    intro shape' imp' name' batch' hfeeds' hsubscribed'
    exact Nat.lt_of_le_of_lt hlower
      (hhigher shape' imp' name' batch' hfeeds' (hkeeps.subscribed_iff.mp hsubscribed'))
  · intro other hhigher slot otherName
    rw [hdrift.seen]
    · rfl
    · intro id place hplace hmem
      exact Nat.lt_of_le_of_lt hlower (hhigher id place (hkeeps.places_iff.mp hplace) hmem)
  · intro exporter exported exportedTarget copy hexporter hexport hcopy hcurrent
    by_cases htarget : exportedTarget = target
    · subst htarget
      obtain rfl := hgraph.exportsOwn hexporter hfeeds (exportsTarget_of_mem hexport)
      exact hshown _ hexport rfl copy hcopy
    · refine hdrift.current hexporter hexport (hkeeps.copyOf_iff.mpr hcopy) ?_
      exact hcurrent.trans (hother htarget).symm
  · intro exporter exported exportedTarget copy hexporter hexport hcopy hunset
    by_cases htarget : exportedTarget = target
    · subst htarget
      intro hnone
      rw [hcontent] at hnone
      cases hnone
    · refine hdrift.unset hexporter hexport (hkeeps.copyOf_iff.mpr hcopy) fun hnone => ?_
      exact hunset ((hother htarget).symm.trans hnone)
  · intro shape' imp' name' target' batch' hfeeds' hsubscribed' hnotBusy hfed
    have hne : target' ≠ target := by
      rintro rfl
      obtain ⟨rfl, rfl, rfl⟩ := hgraph.fedOnce hfeeds' hfeeds
      exact hnotBusy (hwired.subscribed_unique hsubscribed' hsubscribed ▸ hbusy)
    refine hdrift.fed hfeeds' (hkeeps.subscribed_iff.mpr hsubscribed') hnotBusy ?_
    exact (hother hne).trans hfed

/-! ### Refreshing a namespace -/

/-- A round over an entry whose slots provide variables delivers what these hold, and asks no
program. -/
theorem roundValues_of_provides {world : World} {entry : EntryRef}
    {exports : List (String × String)} (h : world.Provides entry exports) :
    (∀ row ∈ (world.entry entry).slots.rows,
      (world.provider row.2.provider).source.isPlain = true) ∧
      world.roundValues (world.entry entry).slots.rows = world.exportedValues exports := by
  unfold World.Provides Entry.exported at h
  generalize (world.entry entry).slots.rows = rows at h
  induction rows generalizing exports with
  | nil =>
    obtain rfl := List.forall₂_nil_right_iff.mp h
    exact ⟨by simp, rfl⟩
  | cons row rest ih =>
    rw [List.map_cons] at h
    obtain ⟨head, tail, hhead, htail, rfl⟩ := List.forall₂_cons_right_iff.mp h
    obtain ⟨hplain, hvalues⟩ := ih htail
    obtain ⟨ref, hsource, hname⟩ := hhead.binding
    have hconstant : row.2.isConstant = false := hhead.isConstant
    have hslot : world.slotValue? row.2 = world.content head.2 := by
      unfold World.slotValue? World.yielded? World.sourceValue? World.content
      rw [hconstant, hname, hsource]
      rfl
    refine ⟨?_, ?_⟩
    · intro other hother
      rcases List.mem_cons.mp hother with rfl | hother
      · rw [hsource]
        rfl
      · exact hplain other hother
    · have hnames : row.1 = head.1 := hhead.name
      unfold World.roundValues World.exportedValues at hvalues ⊢
      rw [List.filterMap_cons, List.filterMap_cons, hslot, hnames, hvalues]

section

variable {exports : List (String × String)}

theorem mem_exportedValues {world : World} {name : String} {value : Value} :
    (name, value) ∈ world.exportedValues exports ↔
      ∃ target, (name, target) ∈ exports ∧ world.content target = some value := by
  simp only [World.exportedValues, List.mem_filterMap, Option.map_eq_some_iff, Prod.mk.injEq,
    Prod.exists]
  constructor
  · rintro ⟨_, target, hmem, _, hcontent, rfl, rfl⟩
    exact ⟨target, hmem, hcontent⟩
  · rintro ⟨target, hmem, hcontent⟩
    exact ⟨name, target, hmem, value, hcontent, rfl, rfl⟩

/-- Different rows of the delivered values have different names. -/
theorem nodup_exportedValues (world : World) (hnames : (exports.map (·.1)).Nodup) :
    ((world.exportedValues exports).map (·.1)).Nodup := by
  have hsublist : ((world.exportedValues exports).map (·.1)).Sublist (exports.map (·.1)) := by
    unfold World.exportedValues
    induction exports with
    | nil => exact .slnil
    | cons row rest ih =>
      have hrest := ih (List.nodup_cons.mp hnames).2
      cases hcontent : world.content row.2 with
      | none => simpa [hcontent] using hrest.cons row.1
      | some value => simpa [hcontent] using hrest
  exact hnames.sublist hsublist

end

/-- Refreshing the namespace of a module moves the world no further than the module's rank, and
makes what the namespace shows current. -/
theorem drift_refreshed (bound : Nat) (busy : BatchRef → String → Prop) {world after : World}
    {shape : ModuleShape} {place : Place}
    (hgraph : graph.WellFormed) (hwired : graph.Wired world) (hshape : shape ∈ graph.modules)
    (hplace : world.Places shape.id place)
    (h : world.Refreshed place.space (world.exportedValues shape.exports) after) :
    graph.Drift bound busy world after ∧
      ∀ {name target}, (name, target) ∈ shape.exports →
        world.IsUnset (.space place.space) name target →
          after.IsCurrent (.space place.space) name target := by
  have hcontent := h.toKeeps.content h.binding
  have hseen (batch : BatchRef) (slot name : String) :
      after.seen? batch slot name = world.seen? batch slot name := by
    unfold World.seen?
    rw [h.batch]
  have hnames := nodup_exportedValues world (hgraph.exportNames shape hshape)
  -- What the namespace shows of a name is the value if there is one, and is as before otherwise.
  have hshown {name target : String} (hexport : (name, target) ∈ shape.exports) {value : Value}
      (hvalue : world.content target = some value) :
      after.member? place.space name = some value :=
    h.shown hplace.spaceLt hnames (mem_exportedValues.mpr ⟨target, hexport, hvalue⟩)
  have hkept {name target : String} (hexport : (name, target) ∈ shape.exports)
      (hvalue : world.content target = none) :
      after.member? place.space name = world.member? place.space name := by
    refine h.otherName fun hmem => ?_
    obtain ⟨⟨_, value⟩, hrow, rfl⟩ := List.mem_map.mp hmem
    obtain ⟨other, hother, hsome⟩ := mem_exportedValues.mp hrow
    have hsame := List.inj_on_of_nodup_map (hgraph.exportNames shape hshape) hexport hother rfl
    rw [← (Prod.mk.inj hsame).2, hvalue] at hsome
    cases hsome
  have hspace {name target : String} (hexport : (name, target) ∈ shape.exports)
      (hunset : world.IsUnset (.space place.space) name target) :
      after.IsCurrent (.space place.space) name target := by
    unfold World.IsCurrent
    rw [hcontent]
    cases hvalue : world.content target with
    | some value => exact hshown hexport hvalue
    | none => exact (hkept hexport hvalue).trans (hunset hvalue)
  -- A copy of another module, and a copy in a batch, is as before.
  have hcopies {exporter : ModuleShape} {name : String} {copy : Copy}
      (hexporter : exporter ∈ graph.modules) (hcopy : world.CopyOf exporter.id name copy) :
      after.copy copy name = world.copy copy name ∨
        exporter = shape ∧ copy = .space place.space := by
    obtain ⟨place', hplace', hcases⟩ := hcopy
    rcases hcases with rfl | ⟨batch, -, rfl, -⟩
    · by_cases hsame : place'.space = place.space
      · exact .inr ⟨hgraph.eq_of_id hexporter hshape (hwired.apart hplace' hplace hsame),
          congrArg Copy.space hsame⟩
      · exact .inl (h.otherSpace hsame name)
    · exact .inl (hseen batch name name)
  refine ⟨{ toKeeps := h.toKeeps, content := ?_, seen := ?_, current := ?_, unset := ?_, fed := ?_ },
    hspace⟩
  · exact fun _ => hcontent _
  · exact fun _ slot name => hseen _ slot name
  · intro exporter name target copy hexporter hexport hcopy hcurrent
    rcases hcopies hexporter hcopy with hsame | ⟨rfl, rfl⟩
    · unfold World.IsCurrent at hcurrent ⊢
      rw [hsame, hcontent, hcurrent]
    · exact hspace hexport fun hnone => hcurrent.trans hnone
  · intro exporter name target copy hexporter hexport hcopy hunset hnone
    rw [hcontent] at hnone
    rcases hcopies hexporter hcopy with hsame | ⟨rfl, rfl⟩
    · rw [hsame]
      exact hunset hnone
    · exact (hkept hexport hnone).trans (hunset hnone)
  · intro shape' imp name target batch _ _ _ hfed
    unfold World.IsFed at hfed ⊢
    rw [hcontent, hseen, hfed]

end ImportGraph

end ModuleLinkage.Ledger
