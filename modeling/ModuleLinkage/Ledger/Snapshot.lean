import ModuleLinkage.Ledger.World

/-!
Snapshots: namespaces written as documents. A namespace that is met inside itself is cut off there.
-/

set_option autoImplicit false

namespace ModuleLinkage.Ledger

/-- What stands for a namespace inside its own snapshot. -/
def circularText : String :=
  "[Circular]"

/-- What stands for an object of the host. -/
def objectText : String :=
  "[Object]"

/-- The document of a number. A document holds finite numbers only. -/
def numberDocument (value : Float) : Document :=
  if value.isNaN || value.isInf then .null else .number value

/-- What is written while the namespaces `marked` are being written: they are marked again when it is
done. -/
structure Written (α : Type) (marked : List NamespaceRef) where
  content : α
  after : List NamespaceRef
  restored : after = marked

namespace World

/-- The number of namespaces that are not marked, of all that were ever made. -/
def unmarked (world : World) (marked : List NamespaceRef) : Nat :=
  ((List.range world.spaces.size).filter fun index => !marked.contains ⟨index⟩).length

/-- Only a namespace that was made has members. -/
theorem index_lt_of_members (world : World) {ref : NamespaceRef}
    (h : (world.space ref).members.rows ≠ []) : ref.index < world.spaces.size := by
  refine Nat.lt_of_not_le fun hindex => h ?_
  have hnone : world.spaces.items[ref.index]? = none := Array.getElem?_eq_none hindex
  rw [space, Store.get, hnone]
  rfl

theorem unmarked_cons (world : World) (marked : List NamespaceRef) (ref : NamespaceRef) :
    world.unmarked (ref :: marked) = (((List.range world.spaces.size).filter fun index =>
      !marked.contains ⟨index⟩).filter fun index => decide (index ≠ ref.index)).length := by
  rw [unmarked, List.filter_filter]
  congr 1
  apply List.filter_congr
  intro index _
  by_cases hsame : index = ref.index
  · simp [hsame]
  · have : (⟨index⟩ : NamespaceRef) ≠ ref := fun heq => hsame (congrArg NamespaceRef.index heq)
    simp [hsame, this]

theorem unmarked_cons_le (world : World) (marked : List NamespaceRef) (ref : NamespaceRef) :
    world.unmarked (ref :: marked) ≤ world.unmarked marked := by
  rw [unmarked_cons]
  exact List.length_filter_le _ _

/-- Marking a namespace with members leaves one less to be written. -/
theorem unmarked_cons_lt (world : World) {marked : List NamespaceRef} {ref : NamespaceRef}
    (hmarked : ref ∉ marked) (h : (world.space ref).members.rows ≠ []) :
    world.unmarked (ref :: marked) < world.unmarked marked := by
  rw [unmarked_cons]
  refine List.length_filter_lt_length_iff_exists.mpr ⟨ref.index, ?_, by simp⟩
  simpa [List.mem_range] using ⟨world.index_lt_of_members h, hmarked⟩

mutual

/-- The document of a namespace. While its members are written it is marked, and a namespace that is
marked is cut off. -/
def writeSpace (world : World) (marked : List NamespaceRef) (ref : NamespaceRef) :
    Written Document marked :=
  if _h : ref ∈ marked then ⟨.text circularText, marked, rfl⟩
  else
    let fields := world.writeRows (ref :: marked) (world.space ref).members.rows
    ⟨.object fields.content, fields.after.erase ref, by simp [fields.restored]⟩
termination_by (world.unmarked marked, 1, 0)
decreasing_by
  cases hrows : (world.space ref).members.rows with
  | nil => exact .right' _ (world.unmarked_cons_le marked ref) (.left _ _ Nat.zero_lt_one)
  | cons row rest => exact .left _ _ (world.unmarked_cons_lt _h (by simp [hrows]))

/-- The document of a value. -/
def writeValue (world : World) (marked : List NamespaceRef) :
    Value → Written Document marked
  | .undefined => ⟨.null, marked, rfl⟩
  | .null => ⟨.null, marked, rfl⟩
  | .bool value => ⟨.bool value, marked, rfl⟩
  | .number value => ⟨numberDocument value, marked, rfl⟩
  | .text value => ⟨.text value, marked, rfl⟩
  | .space ref => world.writeSpace marked ref
  | .object _ => ⟨.text objectText, marked, rfl⟩
termination_by (world.unmarked marked, 2, 0)

/-- The documents of the members of a namespace, one after another. -/
def writeRows (world : World) (marked : List NamespaceRef) :
    List (String × Value) → Written (List (String × Document)) marked
  | [] => ⟨[], marked, rfl⟩
  | (name, value) :: rest =>
    let first := world.writeValue marked value
    let others := world.writeRows first.after rest
    ⟨(name, first.content) :: others.content, others.after, others.restored.trans first.restored⟩
termination_by rows => (world.unmarked marked, if rows.isEmpty then 0 else 3, rows.length)
decreasing_by
  · exact .right _ (.left _ _ (by simp))
  · rw [Written.restored]
    cases rest with
    | nil => exact .right _ (.left _ _ (by simp))
    | cons row rest => exact .right _ (.right _ (Nat.lt_succ_self _))

end

/-- The snapshot of a namespace. -/
def snapshot (world : World) (ref : NamespaceRef) : Document :=
  (world.writeSpace [] ref).content

/-- The snapshot of a value. -/
def snapshotValue (world : World) (value : Value) : Document :=
  (world.writeValue [] value).content

end World

end ModuleLinkage.Ledger
