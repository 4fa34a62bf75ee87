import ModuleLinkage.Proofs.Ledger.Reentry.Overtaking
import ModuleLinkage.Proofs.Ledger.Replacement.Repetition

/-!
# Replaced batches are undone

A keyed registration puts an end to the batch that was registered under the same key before. This module
puts together what follows from that, in every world to which a history leads (`undone_of_history`):
each key stands for one batch at an entry; after its replacement a batch is called no more and writes no
more, also when it is replaced from inside one of its own callbacks or while rounds are under way that
have it on their list; the names that it had written, and no others, are gone from its namespaces; and
a keyed import that is executed again and again leaves what its first execution left.

The last of these asks for getters that do nothing but yield their values. A getter that subscribes
somebody leaves one batch more after every execution (`subscribingGetter_repeated`).
-/

set_option autoImplicit false

namespace ModuleLinkage.Ledger

variable {run : Runner} {world : World} {batch : BatchRef}

/-! ### Batches at their end -/

/-- Nothing is delivered to a batch at its end, and no consumer is left that would be called. -/
theorem outcome_deliverToAll_of_ended (hended : (world.batch batch).isActive = false)
    (name : String) (value : Value) (concerned : List (String × Consumer)) :
    (deliverToAll run batch name value concerned).outcome world = (.ok (), world) := by
  cases concerned with
  | nil => rfl
  | cons row rest =>
    simp [deliverToAll, deliverTo, Effect.outcome_bind, hended]

theorem outcome_deliverValues_of_ended (hended : (world.batch batch).isActive = false)
    (values : List (String × Value)) :
    (deliverValues run batch values).outcome world = (.ok (), world) := by
  cases values with
  | nil => rfl
  | cons row rest => simp [deliverValues, Effect.outcome_bind, hended]

/-! ### The result -/

/-- In the second world there are as many batches at each entry as in the first one, and every namespace
and every variable holds the same. -/
structure World.LeavesAs (first second : World) : Prop where
  batches : ∀ ref, (second.entry ref).batches.length = (first.entry ref).batches.length
  members : ∀ space name, second.member? space name = first.member? space name
  bindings : ∀ ref, second.binding ref = first.binding ref

/-- What replacing batches comes to in a world, and what comes after it. -/
structure Undone (host : Host) (log : List Deed) (world : World) : Prop where
  /-- An entry lists at most one batch for each key. -/
  once : ∀ entry key, ((world.entry entry).batches.filter fun batch =>
    (world.batch batch).key == some key).length ≤ 1
  /-- After a batch was replaced, nothing is done to it or through it. -/
  respected : log.Pairwise Deed.Respects
  /-- No consumer was called but by a deed of the history. -/
  called : world.calls.filter Callback.isConsumer = (log.filterMap Deed.call?).reverse
  /-- Of the rounds under way nothing is left for a batch that was replaced: neither the values that
  come next nor the consumers that come next for the present value. -/
  underWay : ∀ batch, .replaced batch ∈ log → ∀ (run : Runner) (values : List (String × Value)),
    (deliverValues run batch values).outcome world = (.ok (), world) ∧
      ∀ name value concerned,
        (deliverToAll run batch name value concerned).outcome world = (.ok (), world)
  /-- A batch notes the names that it has written. -/
  noted : ∀ batch name, name ∈ (world.batch batch).written ↔ .wrote batch name ∈ log
  /-- A registration removes from each namespace of a batch that it replaces the names that this one has
  written, and keeps all others with their values and in their order. -/
  removed : ∀ entry module consumers key spaces space,
    ((world.addConsumers entry module consumers key spaces).space space).members.rows =
      (world.space space).members.rows.filter fun row =>
        !(world.replacedBy entry (world.keyOf module key)).any fun batch =>
          decide (space ∈ (world.batch batch).spaces) && (world.batch batch).written.contains row.1
  /-- A keyed import that finds its module, whose providers only yield, and yield the same values in
  each execution, and where consumers only write, succeeds again and again and leaves what the first
  execution left. -/
  repeated : ∀ (depth : Nat) (decl : KeyedImport) (exports : NamespaceRef) (found : World)
    (values shown : List (String × Value)) (writes : Consumer → String → Value → List Cell.Write),
    decl.requested (runner depth) world = (.ok exports, found) →
    found.Serves decl.module decl.specifier exports → shown.Sublist values →
    (∀ batch ∈ ((decl.enrolled exports found).entry (decl.opened exports found).1).batches,
      ∀ row ∈ values, ∀ other ∈ ((decl.enrolled exports found).batch batch).concerned row.1,
        other.2.OnlyWrites (runner depth) found row.1 row.2 (writes other.2 row.1 row.2)) →
    ∀ count, (∀ index ≤ count,
      (decl.begun exports (decl.requested (runner depth)
        (decl.executed (runner depth) world index)).2).Yields (runner depth)
          (decl.opened exports found).1 values shown) →
    (∀ index ≤ count, ((decl.execute (runner depth)).outcome
      (decl.executed (runner depth) world index)).1 = .ok ()) ∧
        (decl.executed (runner depth) world 1).LeavesAs
          (decl.executed (runner depth) world (count + 1))
  /-- Whatever runs next goes on with the history: a program, the lines of a callback, the rest of a
  round. -/
  goesOn : ∀ depth,
    (∀ program, ∃ more, History (.ofHost host) (log ++ more) (world.afterwards depth program)) ∧
    (∀ scope label lines, ∃ more, History (.ofHost host) (log ++ more)
      ((runner depth scope label lines).outcome world).2) ∧
    ∀ values batches, ∃ more, History (.ofHost host) (log ++ more)
      ((deliverToBatches (runner depth) values batches).outcome world).2

/-- A program goes on with the history of the world in which it begins. -/
theorem History.exists_afterwards {start : World} {log : List Deed} (h : History start log world)
    (depth : Nat) (program : Program) :
    ∃ more, History start (log ++ more) (world.afterwards depth program) := by
  induction program generalizing world log with
  | nil => exact ⟨[], (List.append_nil log).symm ▸ h⟩
  | cons line rest ih =>
    have hcleared : History start log { world with events := [] } :=
      .elsewhere h (.of_parts rfl rfl rfl)
    obtain ⟨more, hmore⟩ := recorded_perform (recorded_runner depth) {} line.command
      { world with events := [] }
    obtain ⟨others, hothers⟩ := ih (hcleared.trans hmore)
    exact ⟨more ++ others, List.append_assoc log more others ▸ hothers⟩

theorem World.InOrder.length_le_one (h : world.InOrder) (entry : EntryRef) (key : String) :
    ((world.entry entry).batches.filter fun batch =>
      (world.batch batch).key == some key).length ≤ 1 := by
  have hdistinct := (h.distinct entry).filter fun batch => (world.batch batch).key == some key
  have hmem {batch : BatchRef} (hbatch : batch ∈ (world.entry entry).batches.filter fun batch =>
      (world.batch batch).key == some key) :
      batch ∈ (world.entry entry).batches ∧ (world.batch batch).key = some key := by
    simpa using hbatch
  generalize (world.entry entry).batches.filter _ = found at hdistinct hmem ⊢
  match found with
  | [] => exact Nat.zero_le _
  | [_] => exact Nat.le_refl _
  | first :: second :: rest =>
    obtain ⟨hlisted, hkey⟩ := hmem (List.mem_cons_self : first ∈ _)
    obtain ⟨hlisted', hkey'⟩ := hmem (List.mem_cons_of_mem _ List.mem_cons_self : second ∈ _)
    obtain rfl := h.keys hlisted hlisted' hkey hkey'
    simp at hdistinct

/-- **Replaced batches are undone.** In every world to which a history leads: an entry has at most one
batch for each key; a batch that was replaced is called no more and writes no more, and of the rounds
under way nothing is left for it; its replacement has removed from its namespaces the names that it had
written, and nothing else; and where providers only yield, always the same values, and consumers only
write, executing a keyed import again changes nothing. Every program, whatever its callbacks do, goes on
with the history. -/
theorem undone_of_history {host : Host} {log : List Deed}
    (h : History (.ofHost host) log world) : Undone host log world := by
  have hstart := inOrder_ofHost host
  have hgoesOn {action : Effect Unit} (hrecorded : action.Recorded) :
      ∃ more, History (.ofHost host) (log ++ more) (action.outcome world).2 := by
    obtain ⟨more, hmore⟩ := hrecorded world
    exact ⟨more, h.trans hmore⟩
  constructor
  · exact (h.inOrder hstart).length_le_one
  · exact h.pairwise_respects hstart
  · exact h.calls.trans (List.append_nil _)
  · intro batch hreplaced run values
    have hended := (h.ended hstart hreplaced).2
    exact ⟨outcome_deliverValues_of_ended hended values, outcome_deliverToAll_of_ended hended⟩
  · exact h.mem_written_iff rfl
  · intro entry module consumers key spaces
    exact (world.renewed_addConsumers entry module consumers key spaces).rows
  · intro depth decl exports found values shown writes hrequested hserves hshown hwrites count hyields
    have horder : found.InOrder := by
      obtain ⟨more, hmore⟩ :=
        (recorded_request (recorded_runner depth) decl.module decl.specifier).holding
          decl.registration.holdings world
      change History world more (decl.requested (runner depth) world).2 at hmore
      rw [hrequested] at hmore
      exact (h.trans hmore).inOrder hstart
    obtain ⟨-, hok, hcells, hlengths⟩ := KeyedImport.exists_atRest_executed hrequested hserves horder
      hshown hwrites count hyields
    exact ⟨hok, hlengths, fun space name => hcells (.member space name), fun ref => hcells (.binding ref)⟩
  · intro depth
    refine ⟨h.exists_afterwards depth, fun scope label lines => ?_, fun values batches => ?_⟩
    · exact hgoesOn (recorded_runner depth scope label lines)
    · exact hgoesOn (recorded_deliverToBatches (recorded_runner depth) values batches)

/-! ### Examples -/

/-- A host with one module, which exports a name with a getter. -/
def exporting (getter : ProviderTerm) : Host :=
  { bodies := Table.ofList [("e", [(Command.provide none [(.fixed "a", getter)] false).line])]
    aliases := .empty
    failures := .empty }

/-- An import of the module's export into a variable, with a key. -/
def keyedLine : Line :=
  (Command.importNow (some "app") "e"
    { consumers := some [(.fixed "a", .assign "x")], key := some "0", spaces := [] }).line

/-- The world after some executions of the import. -/
def importedTimes (getter : ProviderTerm) (count : Nat) : World :=
  (World.ofHost (exporting getter)).afterwards 4
    ([(Command.createModule "app" "app" true).line, (Command.createBinding "x" none).line,
      (Command.createBinding "y" none).line] ++ List.replicate count keyedLine)

theorem exists_importedTimes (getter : ProviderTerm) (count : Nat) :
    ∃ log, History (.ofHost (exporting getter)) log (importedTimes getter count) :=
  History.start.exists_afterwards 4 _

theorem importedTimes_add (getter : ProviderTerm) (count more : Nat) :
    importedTimes getter (count + more) =
      (importedTimes getter count).afterwards 4 (List.replicate more keyedLine) := by
  rw [importedTimes, importedTimes, World.afterwards, World.afterwards, World.afterwards,
    ← List.replicate_append_replicate, ← List.append_assoc, List.foldl_append]

/-- What the import comes to. -/
def keyedImport : KeyedImport :=
  { module := ⟨0⟩
    specifier := "e"
    consumers := Table.ofList [("a", .assign ⟨0⟩)]
    key := "0"
    spaces := [] }

/-- The text that the module exports. -/
def exported : ProviderTerm :=
  .value (.text "value")

/-- The world in which the import has found its module. -/
def servedWorld : World :=
  (keyedImport.requested (runner 3) (importedTimes exported 0)).2

/-- The world in which the import begins once more after some executions. -/
def begunTimes (count : Nat) : World :=
  keyedImport.begun ⟨1⟩ (keyedImport.requested (runner 3)
    (keyedImport.executed (runner 3) (importedTimes exported 0) count)).2

/-- Whether a round over the module's entry takes just the text, from plain getters. -/
def takesText (world : World) : Bool :=
  ((world.entry ⟨0⟩).slots.rows.all fun row => (world.provider row.2.provider).source.isPlain) &&
    !world.exportsItself ⟨0⟩ &&
    ((world.roundValues (world.entry ⟨0⟩).slots.rows).map Prod.fst == ["a"]) &&
    (world.roundValues (world.entry ⟨0⟩).slots.rows).all fun row => row.2.same (.text "value")

/-- Whether a consumer assigns the first variable. -/
def assignsFirst : Consumer → Bool
  | .assign ref => ref == ⟨0⟩
  | _ => false

/-- What is computed of the import's run. -/
theorem served_computed :
    (keyedImport.requested (runner 3) (importedTimes exported 0)).1 = .ok ⟨1⟩ ∧
    ((servedWorld.module ⟨0⟩).isEnabled = true ∧ servedWorld.resolve? "e" = some "e" ∧
      servedWorld.loaded? "e" = some ⟨1⟩ ∧ (servedWorld.module ⟨1⟩).exports = ⟨1⟩ ∧
      1 < servedWorld.spaces.size ∧ (servedWorld.space ⟨1⟩).entry = some ⟨0⟩ ∧
      0 < servedWorld.entries.size) ∧
    ((keyedImport.opened ⟨1⟩ servedWorld).1 = ⟨0⟩ ∧
      takesText (begunTimes 0) = true ∧ takesText (begunTimes 1) = true) ∧
    ((((keyedImport.enrolled ⟨1⟩ servedWorld).entry ⟨0⟩).batches.all fun batch =>
        (((keyedImport.enrolled ⟨1⟩ servedWorld).batch batch).concerned "a").all fun other =>
          assignsFirst other.2) = true ∧
      0 < servedWorld.bindings.size) ∧
    0 < (importedTimes exported (0 + 2)).batches.size ∧
      ((importedTimes exported (0 + 2)).batch ⟨0⟩).isActive = false := by
  decide +kernel

theorem requested_served : keyedImport.requested (runner 3) (importedTimes exported 0) =
    (.ok ⟨1⟩, servedWorld) := by
  unfold servedWorld
  rw [← served_computed.1]

theorem serves_served : servedWorld.Serves ⟨0⟩ "e" ⟨1⟩ := by
  obtain ⟨-, ⟨henabled, hresolve, hloaded, hexports, hlt, hplaced, hentries⟩, -⟩ := served_computed
  refine ⟨henabled, ⟨"e", ⟨1⟩, hresolve, hloaded, hexports⟩, hlt, fun entry h => ?_⟩
  cases hplaced.symm.trans h
  exact hentries

/-- Where a round takes just the text, that is what it yields. -/
theorem yields_of_takesText {world : World} (h : takesText world = true) :
    world.Yields (runner 3) ⟨0⟩ [("a", .text "value")] [("a", .text "value")] := by
  unfold takesText at h
  simp only [Bool.and_eq_true, Bool.not_eq_true', beq_iff_eq] at h
  obtain ⟨⟨⟨hplain, hself⟩, hnames⟩, hvalues⟩ := h
  refine meets_refresh (List.all_eq_true.mp hplain) hself fun after hafter _ => ?_
  generalize world.roundValues _ = values at hnames hvalues hafter ⊢
  obtain ⟨⟨name, value⟩, rfl, rfl⟩ := List.map_eq_singleton_iff.mp hnames
  simp only [List.all_cons, List.all_nil, Bool.and_true, Value.same_iff] at hvalues
  exact hvalues ▸ ⟨rfl, hafter⟩

theorem yields_served : ∀ index ≤ 1,
    (begunTimes index).Yields (runner 3) (keyedImport.opened ⟨1⟩ servedWorld).1
      [("a", .text "value")] [("a", .text "value")] := by
  obtain ⟨-, -, ⟨hentry, hfirst, hsecond⟩, -⟩ := served_computed
  intro index hindex
  rw [hentry]
  obtain rfl | rfl := Nat.le_one_iff_eq_zero_or_eq_one.mp hindex
  · exact yields_of_takesText hfirst
  · exact yields_of_takesText hsecond

theorem onlyWrites_served :
    ∀ batch ∈ ((keyedImport.enrolled ⟨1⟩ servedWorld).entry
      (keyedImport.opened ⟨1⟩ servedWorld).1).batches,
    ∀ row ∈ [("a", Value.text "value")],
    ∀ other ∈ ((keyedImport.enrolled ⟨1⟩ servedWorld).batch batch).concerned row.1,
      other.2.OnlyWrites (runner 3) servedWorld row.1 row.2 [(.binding ⟨0⟩, row.2)] := by
  obtain ⟨-, -, ⟨hentry, -⟩, ⟨hassigns, hbinding⟩, -⟩ := served_computed
  rw [hentry]
  intro batch hbatch row hrow other hother
  obtain rfl := List.mem_singleton.mp hrow
  have hassign := List.all_eq_true.mp (List.all_eq_true.mp hassigns batch hbatch) other hother
  unfold assignsFirst at hassign
  split at hassign
  · next ref hconsumer =>
    rw [hconsumer, eq_of_beq hassign]
    exact Consumer.onlyWrites_assign hbinding "a" (.text "value")
  · cases hassign

/-- The result for the import of a plain getter's value: when it is executed twice, the batch of the
first execution is replaced, and the second one leaves what the first one left. -/
theorem undone_plainGetter : ∃ log more,
    History (.ofHost (exporting exported)) log (importedTimes exported 0) ∧
    Undone (exporting exported) log (importedTimes exported 0) ∧
    (keyedImport.executed (runner 3) (importedTimes exported 0) 1).LeavesAs
      (keyedImport.executed (runner 3) (importedTimes exported 0) 2) ∧
    History (.ofHost (exporting exported)) (log ++ more) (importedTimes exported 2) ∧
    .replaced ⟨0⟩ ∈ log ++ more ∧
    Undone (exporting exported) (log ++ more) (importedTimes exported 2) := by
  obtain ⟨log, h⟩ := exists_importedTimes exported 0
  obtain ⟨more, hmore⟩ := h.exists_afterwards 4 (List.replicate 2 keyedLine)
  rw [← importedTimes_add] at hmore
  obtain ⟨-, -, -, -, hlt, hended⟩ := served_computed
  refine ⟨log, more, h, undone_of_history h, ?_, hmore,
    hmore.replaced_of_ended rfl hlt hended, undone_of_history hmore⟩
  exact ((undone_of_history h).repeated 3 keyedImport ⟨1⟩ servedWorld [("a", .text "value")]
    [("a", .text "value")] (fun _ _ value => [(.binding ⟨0⟩, value)]) requested_served serves_served
    (List.Sublist.refl _) onlyWrites_served 1 yields_served).2

/-- A getter that subscribes somebody to its module before it yields the text. -/
def subscribing : ProviderTerm :=
  .computed [(Command.watch (some "app") (.exportsOf "e")
    { consumers := some [(.fixed "a", .assign "y")], key := none, spaces := [] }).line]
    (.text "value")

/-- Where the getter subscribes somebody, the import leaves one batch more after its second execution,
though the variable holds the same value. -/
theorem subscribingGetter_repeated :
    ((importedTimes subscribing 1).entry ⟨0⟩).batches.length = 2 ∧
      ((importedTimes subscribing 2).entry ⟨0⟩).batches.length = 3 ∧
      (importedTimes subscribing 1).binding ⟨0⟩ = some (.text "value") ∧
      (importedTimes subscribing 2).binding ⟨0⟩ = some (.text "value") :=
  ⟨by decide +kernel, by decide +kernel, Outlet.eq_some_of_same (by decide +kernel),
    Outlet.eq_some_of_same (by decide +kernel)⟩

end ModuleLinkage.Ledger
