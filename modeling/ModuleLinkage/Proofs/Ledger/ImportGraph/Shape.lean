import Mathlib.Data.Finset.Card
import Mathlib.Data.Finset.Filter
import Mathlib.Data.List.Dedup
import Mathlib.Logic.Relation
import ModuleLinkage.Proofs.Ledger.Outcome
import ModuleLinkage.Proofs.Ledger.ScopedKey

/-!
# Graphs of modules that import each other

A module that was lowered to calls of the ledger has a body of a fixed shape: it provides what
variables hold under the names that it exports, then imports other modules, and then writes to its
own variables. An import puts the values of exported names into variables of the importing module,
its locals. A local that the module exports again is shown to the module's own importers each time
it is assigned.

`ModuleShape` is such a body as data and `ModuleShape.body` the program that it stands for; an
`ImportGraph` is a list of them, served by the host `ImportGraph.host`. Imports may be cyclic. What
`ImportGraph.WellFormed` asks is that no local is fed twice, that modules do not share variables, and
that passing values on is acyclic: no module exports a local that comes, through locals exported by
other modules, from itself. The number of modules from which a module passes nothing on, but which
pass on from it, is its rank (`ImportGraph.rank`); it decreases along every step that a value is
passed on (`rank_lt_of_forwards`).
-/

set_option autoImplicit false

namespace ModuleLinkage.Ledger

/-- How an import takes the values of one exported name. -/
inductive Feed where
  /-- Puts them straight into one local. -/
  | assign (target : String)
  /-- Runs lines that put them into locals, one after the other. -/
  | callback (targets : List String)
  deriving DecidableEq

def Feed.targets : Feed → List String
  | assign target => [target]
  | callback targets => targets

/-- An import: the id of the module imported, the number that is the key of the subscription, and
how the values of exported names are taken. -/
structure Import where
  source : String
  key : Nat
  feeds : List (String × Feed)
  deriving DecidableEq

/-- A write to a variable of a module, and whether the module shows its values after it. -/
structure Write where
  target : String
  value : ValueTerm
  isShown : Bool

/-- A module body: the exported names with the variables behind them, the imports, and the writes. -/
structure ModuleShape where
  id : String
  exports : List (String × String)
  imports : List Import
  writes : List Write

namespace ModuleShape

variable (shape : ModuleShape)

/-- Whether a module exports what a variable holds. -/
def exportsTarget (target : String) : Bool :=
  shape.exports.any fun row => row.2 == target

/-- Puts a received value into a local and shows it if the local is exported. -/
def feedLines (target : String) : Program :=
  (Command.setBinding target .receivedValue).line ::
    if shape.exportsTarget target then [(Command.propagate none .receivedValue).line] else []

def consumerTerm : Feed → ConsumerTerm
  | .assign target => .assign target
  | .callback targets => .callback none (targets.flatMap shape.feedLines)

def subscription (imp : Import) : Subscription ConsumerTerm where
  consumers := some (imp.feeds.map fun row => (.fixed row.1, shape.consumerTerm row.2))
  key := some imp.key.repr
  spaces := []

def importLine (imp : Import) : Line :=
  (Command.importNow none imp.source (shape.subscription imp)).line

def exportLine : Line :=
  (Command.provide none (shape.exports.map fun row => (.fixed row.1, .binding row.2)) false).line

end ModuleShape

def Write.lines (write : Write) : Program :=
  (Command.setBinding write.target write.value).line ::
    if write.isShown then [(Command.propagate none (.binding write.target)).line] else []

/-- The program that a module body is. -/
def ModuleShape.body (shape : ModuleShape) : Program :=
  [(Command.evaluate none
    (shape.exportLine :: (shape.imports.map shape.importLine ++
      shape.writes.flatMap Write.lines))).line]

/-- A finite set of modules that import each other. -/
structure ImportGraph where
  modules : List ModuleShape

namespace ImportGraph

/-- The host that serves the modules of a graph, and nothing else. -/
def host (graph : ImportGraph) : Host where
  bodies := ⟨graph.modules.map fun shape => (shape.id, shape.body)⟩
  aliases := .empty
  failures := .empty

def ids (graph : ImportGraph) : List String :=
  graph.modules.map (·.id)

/-- An import of a module puts the values of an exported name into a local. -/
structure Feeds (graph : ImportGraph) (shape : ModuleShape) (imp : Import)
    (name target : String) : Prop where
  shape_mem : shape ∈ graph.modules
  imp_mem : imp ∈ shape.imports
  feed : ∃ feed, (name, feed) ∈ imp.feeds ∧ target ∈ feed.targets

/-- The module `id` exports a local that it imports from the module `source`. -/
def Forwards (graph : ImportGraph) (id source : String) : Prop :=
  ∃ shape imp name target, graph.Feeds shape imp name target ∧
    shape.exportsTarget target = true ∧ shape.id = id ∧ imp.source = source

/-- What is asked of a graph of modules. -/
structure WellFormed (graph : ImportGraph) : Prop where
  ids : graph.ids.Nodup
  /-- Every module imported is one of the graph. -/
  source : ∀ shape ∈ graph.modules, ∀ imp ∈ shape.imports, imp.source ∈ graph.ids
  /-- The imports of one module have different keys. -/
  keys : ∀ shape ∈ graph.modules, (shape.imports.map (·.key)).Nodup
  exportNames : ∀ shape ∈ graph.modules, (shape.exports.map (·.1)).Nodup
  feedNames : ∀ shape ∈ graph.modules, ∀ imp ∈ shape.imports, (imp.feeds.map (·.1)).Nodup
  /-- The mark of every name is not imported as if it were a name. -/
  noWildcard : ∀ shape ∈ graph.modules, ∀ imp ∈ shape.imports, everyName ∉ imp.feeds.map (·.1)
  /-- What is put straight into a local is not shown to others, so that local is not exported. -/
  direct : ∀ shape ∈ graph.modules, ∀ imp ∈ shape.imports, ∀ name target,
    (name, Feed.assign target) ∈ imp.feeds → shape.exportsTarget target = false
  /-- Each local is fed by one exported name of one import. -/
  fedOnce : ∀ {shape shape' imp imp' name name' target}, graph.Feeds shape imp name target →
    graph.Feeds shape' imp' name' target → shape = shape' ∧ imp = imp' ∧ name = name'
  /-- A module exports no local of another module. -/
  exportsOwn : ∀ {shape shape' imp name target}, shape' ∈ graph.modules →
    graph.Feeds shape imp name target → shape'.exportsTarget target = true → shape = shape'
  /-- What a module writes to is no local, and no other module exports it. -/
  writesOwn : ∀ shape ∈ graph.modules, ∀ write ∈ shape.writes,
    (∀ shape' imp name, ¬ graph.Feeds shape' imp name write.target) ∧
      ∀ shape' ∈ graph.modules, shape'.exportsTarget write.target = true → shape = shape'
  /-- No value is passed on in a circle. -/
  acyclic : ∀ id, ¬ Relation.TransGen graph.Forwards id id

theorem mem_ids {graph : ImportGraph} {shape : ModuleShape} (h : shape ∈ graph.modules) :
    shape.id ∈ graph.ids :=
  List.mem_map_of_mem h

namespace WellFormed

variable {graph : ImportGraph}

/-- Modules of one graph with the same id are the same. -/
theorem eq_of_id (h : graph.WellFormed) {shape shape' : ModuleShape}
    (hshape : shape ∈ graph.modules) (hshape' : shape' ∈ graph.modules)
    (hid : shape.id = shape'.id) : shape = shape' :=
  List.inj_on_of_nodup_map h.ids hshape hshape' hid

/-- Imports of one module with the same key are the same. -/
theorem eq_of_key (h : graph.WellFormed) {shape : ModuleShape} (hshape : shape ∈ graph.modules)
    {imp imp' : Import} (himp : imp ∈ shape.imports) (himp' : imp' ∈ shape.imports)
    (hkey : imp.key = imp'.key) : imp = imp' :=
  List.inj_on_of_nodup_map (h.keys shape hshape) himp himp' hkey

/-- The module that an import is from. -/
theorem exists_source (h : graph.WellFormed) {shape : ModuleShape} (hshape : shape ∈ graph.modules)
    {imp : Import} (himp : imp ∈ shape.imports) :
    ∃ exporter ∈ graph.modules, exporter.id = imp.source :=
  List.mem_map.mp (h.source shape hshape imp himp)

/-- The host finds the body of each module. -/
theorem body_host (h : graph.WellFormed) {shape : ModuleShape} (hshape : shape ∈ graph.modules) :
    graph.host.bodies.get? shape.id = some shape.body := by
  have hfind : (graph.modules.find? fun other => other.id == shape.id) = some shape := by
    have hsome : (graph.modules.find? fun other => other.id == shape.id).isSome = true :=
      List.find?_isSome.mpr ⟨shape, hshape, by simp⟩
    obtain ⟨found, hfound⟩ := Option.isSome_iff_exists.mp hsome
    have hid : found.id = shape.id := by simpa using List.find?_some hfound
    rw [hfound, h.eq_of_id (List.mem_of_find?_eq_some hfound) hshape hid]
  simp only [host, Table.get?, List.find?_map, Function.comp_def, hfind]
  rfl

end WellFormed

/-! ### Ranks -/

section

open Classical in
/-- The number of modules that pass on, directly or through others, what they import from `id`. -/
noncomputable def rank (graph : ImportGraph) (id : String) : Nat :=
  (graph.ids.toFinset.filter fun other => Relation.TransGen graph.Forwards other id).card

variable {graph : ImportGraph}

/-- The rank decreases from a module to one that passes its values on. Assumes: values are not passed
on in a circle. -/
theorem rank_lt_of_forwards (hgraph : graph.WellFormed) {id source : String}
    (hforwards : graph.Forwards id source) : graph.rank id < graph.rank source := by
  have hmem : id ∈ graph.ids := by
    obtain ⟨shape, imp, name, target, hfeeds, -, rfl, -⟩ := hforwards
    exact mem_ids hfeeds.shape_mem
  apply Finset.card_lt_card
  rw [Finset.ssubset_iff_of_subset]
  · refine ⟨id, ?_, ?_⟩
    · simp only [Finset.mem_filter, List.mem_toFinset]
      exact ⟨hmem, .single hforwards⟩
    · simp only [Finset.mem_filter, not_and]
      exact fun _ => hgraph.acyclic id
  · intro other hother
    simp only [Finset.mem_filter] at hother ⊢
    exact ⟨hother.1, hother.2.tail hforwards⟩

/-- The rank of a module is less than the number of modules. -/
theorem rank_lt_length (hgraph : graph.WellFormed) {id : String} (hid : id ∈ graph.ids) :
    graph.rank id < graph.modules.length := by
  classical
  have hcard : graph.ids.toFinset.card = graph.modules.length := by
    rw [List.toFinset_card_of_nodup hgraph.ids, ids, List.length_map]
  rw [← hcard]
  apply Finset.card_lt_card
  rw [Finset.ssubset_iff_of_subset (Finset.filter_subset _ _)]
  refine ⟨id, List.mem_toFinset.mpr hid, ?_⟩
  simp only [Finset.mem_filter, not_and]
  exact fun _ => hgraph.acyclic id

/-- What a module feeds to a local that is exported goes to a module of lower rank. -/
theorem rank_lt_of_feeds (hgraph : graph.WellFormed) {shape : ModuleShape} {imp : Import}
    {name target : String} (hfeeds : graph.Feeds shape imp name target)
    (hexported : shape.exportsTarget target = true) :
    graph.rank shape.id < graph.rank imp.source :=
  rank_lt_of_forwards hgraph ⟨shape, imp, name, target, hfeeds, hexported, rfl, rfl⟩

end

end ImportGraph

end ModuleLinkage.Ledger
