import Mathlib.Data.List.Induction
import ModuleLinkage.Ledger.Snapshot

/-!
# Snapshots unfold the graph of namespaces

Namespaces hold values, some of which are namespaces, and so on round and round. A `Path` goes from a
value to the members of the namespace that it is, and on, as long as it comes to no namespace that it
has passed. The unfolding of the graph has one place for each path (`Unfolds`): a namespace that the
path has passed is cut off there, and any other one is written with all its members. This is what
snapshots are (`unfolds_iff`). What is marked while a value is written are the namespaces on the path
to it, neither more nor less (`at?_of_path`).
-/

set_option autoImplicit false

namespace ModuleLinkage

/-- What stands in a document behind the fields at some places, one inside the other. -/
def Document.at? : List Nat → Document → Option Document
  | [], document => some document
  | place :: rest, .object fields => fields[place]?.bind fun field => field.2.at? rest
  | _ :: _, _ => none

theorem Document.at?_concat (places : List Nat) (place : Nat) (document : Document) :
    document.at? (places ++ [place]) = (document.at? places).bind (Document.at? [place]) := by
  induction places generalizing document with
  | nil => rfl
  | cons first rest ih =>
    cases document with
    | object fields =>
      rw [List.cons_append, at?, at?, Option.bind_assoc]
      simp only [ih]
    | _ => rfl

namespace Ledger

variable {world : World} {root value : Value} {marked passed : List NamespaceRef}
  {places : List Nat} {document : Document}

/-! ### The unfolding -/

/-- A path from a value through members of namespaces: the namespaces that it has passed, the places
of the members that it has taken, and the value where it ends. It goes on from a namespace only if it
has not passed it before. -/
inductive Path (world : World) (root : Value) :
    List NamespaceRef → List Nat → Value → Prop
  | start : Path world root [] [] root
  | member {passed : List NamespaceRef} {places : List Nat} {ref : NamespaceRef} {place : Nat}
      {name : String} {value : Value} (h : Path world root passed places (.space ref))
      (hnew : ref ∉ passed) (hrow : (world.space ref).members.rows[place]? = some (name, value)) :
      Path world root (passed ++ [ref]) (places ++ [place]) value

/-- The document of a value that is no namespace. -/
def Value.plainDocument? : Value → Option Document
  | .undefined => some .null
  | .null => some .null
  | .bool value => some (.bool value)
  | .number value => some (numberDocument value)
  | .text value => some (.text value)
  | .space _ => none
  | .object _ => some (.text objectText)

/-- What stands in the unfolding for a value to which a path comes. What stands for the members of a
namespace is said where the path goes on to them. -/
inductive Shows (world : World) (passed : List NamespaceRef) : Value → Document → Prop
  | plain {value : Value} {document : Document} (h : value.plainDocument? = some document) :
    Shows world passed value document
  | circular {ref : NamespaceRef} (h : ref ∈ passed) :
    Shows world passed (.space ref) (.text circularText)
  | full {ref : NamespaceRef} {fields : List (String × Document)} (h : ref ∉ passed)
      (hnames : fields.map (·.1) = (world.space ref).members.names) :
      Shows world passed (.space ref) (.object fields)

/-- Whether a document is the unfolding of a value. -/
structure Unfolds (world : World) (root : Value) (document : Document) : Prop where
  /-- Each path comes to a place of the document, and what the path comes to stands there. -/
  shown : ∀ {passed places value}, Path world root passed places value →
    ∃ inner, document.at? places = some inner ∧ Shows world passed value inner
  /-- The document has no other places. -/
  reached : ∀ {places inner}, document.at? places = some inner →
    ∃ passed value, Path world root passed places value

/-! ### What is written -/

theorem content_writeRows (world : World) (marked : List NamespaceRef)
    (rows : List (String × Value)) : (world.writeRows marked rows).content =
      rows.map fun row => (row.1, (world.writeValue marked row.2).content) := by
  induction rows with
  | nil => rw [World.writeRows]; rfl
  | cons row rest ih =>
    rw [World.writeRows, List.map_cons, ← ih]
    dsimp only
    rw [(world.writeValue marked row.2).restored]

theorem content_writeSpace (world : World) (marked : List NamespaceRef) (ref : NamespaceRef) :
    (world.writeSpace marked ref).content =
      if ref ∈ marked then .text circularText
      else .object ((world.space ref).members.rows.map fun row =>
        (row.1, (world.writeValue (ref :: marked) row.2).content)) := by
  rw [World.writeSpace]
  split
  · rfl
  · exact congrArg Document.object (content_writeRows world _ _)

theorem writeValue_space (world : World) (marked : List NamespaceRef) (ref : NamespaceRef) :
    world.writeValue marked (.space ref) = world.writeSpace marked ref := by
  rw [World.writeValue]

theorem content_of_plainDocument? (h : value.plainDocument? = some document) :
    (world.writeValue marked value).content = document := by
  cases value <;> simp only [Value.plainDocument?, Option.some.injEq, reduceCtorEq] at h <;>
    rw [World.writeValue] <;> exact h

/-- What is written for a value is what stands for it in the unfolding. -/
theorem shows_writeValue (world : World) (passed : List NamespaceRef) (value : Value) :
    Shows world passed value (world.writeValue passed.reverse value).content := by
  cases hplain : value.plainDocument? with
  | some document => rw [content_of_plainDocument? hplain]; exact .plain hplain
  | none =>
    obtain ⟨ref, rfl⟩ : ∃ ref, value = .space ref := by
      cases value <;> simp [Value.plainDocument?] at hplain ⊢
    rw [writeValue_space, content_writeSpace]
    split
    · next h => exact .circular (List.mem_reverse.mp h)
    · next h =>
      refine .full (fun hmem => h (List.mem_reverse.mpr hmem)) ?_
      simp [Table.names, Function.comp_def]

/-- **Marks.** Where a path ends, what it comes to is written while exactly the namespaces that it has
passed are marked. -/
theorem at?_of_path (h : Path world root passed places value) :
    (world.writeValue [] root).content.at? places =
      some (world.writeValue passed.reverse value).content := by
  induction h with
  | start => rfl
  | @member passed places ref place name value h hnew hrow ih =>
    have hunmarked : ref ∉ passed.reverse := mt List.mem_reverse.mp hnew
    have hmarks : (passed ++ [ref]).reverse = ref :: passed.reverse := by simp
    rw [Document.at?_concat, ih, writeValue_space, content_writeSpace, if_neg hunmarked, hmarks]
    simp [Document.at?, hrow]

theorem at?_of_plainDocument? (h : value.plainDocument? = some document) (place : Nat) :
    document.at? [place] = none := by
  cases value with
  | number number =>
    obtain rfl := Option.some.inj h
    unfold numberDocument
    split <;> rfl
  | space ref => cases h
  | _ => obtain rfl := Option.some.inj h; rfl

/-- A place of the document of a namespace is that of a member. -/
theorem exists_row_of_at? {place : Nat} {inner : Document}
    (h : (world.writeValue marked value).content.at? [place] = some inner) :
    ∃ ref name member, value = .space ref ∧ ref ∉ marked ∧
      (world.space ref).members.rows[place]? = some (name, member) := by
  cases hplain : value.plainDocument? with
  | some document =>
    rw [content_of_plainDocument? hplain, at?_of_plainDocument? hplain] at h
    cases h
  | none =>
    obtain ⟨ref, rfl⟩ : ∃ ref, value = .space ref := by
      cases value <;> simp [Value.plainDocument?] at hplain ⊢
    rw [writeValue_space, content_writeSpace] at h
    split at h
    · cases h
    · next hmarked =>
      rw [Document.at?, List.getElem?_map] at h
      cases hrow : (world.space ref).members.rows[place]? with
      | none => simp [hrow] at h
      | some row => exact ⟨ref, row.1, row.2, rfl, hmarked, hrow⟩

theorem exists_path_of_at? {inner : Document}
    (h : (world.writeValue [] root).content.at? places = some inner) :
    ∃ passed value, Path world root passed places value := by
  induction places using List.reverseRecOn generalizing inner with
  | nil => exact ⟨[], root, .start⟩
  | append_singleton places place ih =>
    rw [Document.at?_concat, Option.bind_eq_some_iff] at h
    obtain ⟨outer, houter, hinner⟩ := h
    obtain ⟨passed, value, hpath⟩ := ih houter
    rw [at?_of_path hpath, Option.some.injEq] at houter
    rw [← houter] at hinner
    obtain ⟨ref, name, member, rfl, hmarked, hrow⟩ := exists_row_of_at? hinner
    exact ⟨_, _, hpath.member (mt List.mem_reverse.mpr hmarked) hrow⟩

theorem unfolds_snapshotValue (world : World) (root : Value) :
    Unfolds world root (world.snapshotValue root) :=
  ⟨fun hpath => ⟨_, at?_of_path hpath, shows_writeValue world _ _⟩, exists_path_of_at?⟩

/-! ### There is one unfolding -/

theorem sizeOf_lt_of_field {fields : List (String × Document)} {place : Nat}
    {field : String × Document} (h : fields[place]? = some field) :
    sizeOf field.2 < sizeOf (Document.object fields) := by
  have hfield := List.sizeOf_lt_of_mem (List.mem_of_getElem? h)
  obtain ⟨name, inner⟩ := field
  simp only [Prod.mk.sizeOf_spec, Document.object.sizeOf_spec] at hfield ⊢
  omega

/-- At the end of a path an unfolding has what is written there, by induction on what it has there. -/
theorem eq_content_of_at? (hunfolds : Unfolds world root document)
    (hpath : Path world root passed places value) {inner : Document}
    (hinner : document.at? places = some inner) :
    inner = (world.writeValue passed.reverse value).content := by
  induction hsize : sizeOf inner using Nat.strongRecOn generalizing passed places value inner with
  | ind size ih =>
    subst hsize
    obtain ⟨_, hsame, hshows⟩ := hunfolds.shown hpath
    obtain rfl := Option.some.inj (hinner.symm.trans hsame)
    cases hshows with
    | plain hplain => exact (content_of_plainDocument? hplain).symm
    | circular hpassed =>
      rw [writeValue_space, content_writeSpace, if_pos (List.mem_reverse.mpr hpassed)]
    | @full ref fields hnew hnames =>
      have hunmarked : ref ∉ passed.reverse := mt List.mem_reverse.mp hnew
      have hmarks : (passed ++ [ref]).reverse = ref :: passed.reverse := by simp
      have hlength : fields.length = (world.space ref).members.rows.length := by
        simpa [Table.names] using congrArg List.length hnames
      rw [writeValue_space, content_writeSpace, if_neg hunmarked]
      congr 1
      refine List.ext_getElem (by simpa using hlength) fun place hplace hrow => ?_
      rw [List.length_map] at hrow
      have hmember : (world.space ref).members.rows[place]? =
          some ((world.space ref).members.rows[place].1,
            (world.space ref).members.rows[place].2) := List.getElem?_eq_getElem hrow
      have hfield : fields[place]? = some fields[place] := List.getElem?_eq_getElem hplace
      have hplaced : document.at? (places ++ [place]) = some fields[place].2 := by
        rw [Document.at?_concat, hinner, Option.bind_some, Document.at?, hfield]
        rfl
      have hwritten :=
        ih _ (sizeOf_lt_of_field hfield) (hpath.member hnew hmember) hplaced rfl
      have hname : fields[place].1 = (world.space ref).members.rows[place].1 := by
        have := congrArg (·[place]?) hnames
        simpa [Table.names, hplace, hrow] using this
      rw [hmarks] at hwritten
      rw [List.getElem_map, ← hname, ← hwritten]

theorem unfolds_value_iff (world : World) (root : Value) (document : Document) :
    Unfolds world root document ↔ document = world.snapshotValue root := by
  constructor
  · intro hunfolds
    exact eq_content_of_at? hunfolds .start rfl
  · rintro rfl
    exact unfolds_snapshotValue world root

/-- **Snapshots.** The snapshot of a value, and that of a namespace, is the unfolding of the graph
from there, whatever cycles the graph has: a namespace is cut off where the path from the root has
passed it, and nowhere else. -/
theorem unfolds_iff (world : World) :
    (∀ value document, Unfolds world value document ↔ document = world.snapshotValue value) ∧
      ∀ ref document, Unfolds world (.space ref) document ↔ document = world.snapshot ref := by
  refine ⟨unfolds_value_iff world, fun ref document => ?_⟩
  rw [unfolds_value_iff, World.snapshotValue, writeValue_space, World.snapshot]

end Ledger

end ModuleLinkage
