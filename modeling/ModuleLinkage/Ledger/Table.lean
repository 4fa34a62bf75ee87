/-!
Tables that keep the order of first insertion: a name put again keeps its place and takes the new
value, a name put anew goes to the end.
-/

set_option autoImplicit false

namespace ModuleLinkage.Ledger

/-- Named values in the order in which the names came first. -/
structure Table (α : Type) where
  rows : List (String × α)
  deriving Repr

namespace Table

variable {α : Type}

instance : Inhabited (Table α) := ⟨⟨[]⟩⟩

def empty : Table α :=
  ⟨[]⟩

def get? (table : Table α) (name : String) : Option α :=
  (table.rows.find? fun row => row.1 == name).map (·.2)

def contains (table : Table α) (name : String) : Bool :=
  table.rows.any fun row => row.1 == name

def names (table : Table α) : List String :=
  table.rows.map (·.1)

def size (table : Table α) : Nat :=
  table.rows.length

/-- Rows in which `name` has the value `value`, at its place or at the end. -/
def putRows (name : String) (value : α) : List (String × α) → List (String × α)
  | [] => [(name, value)]
  | row :: rest =>
    if row.1 == name then (name, value) :: rest else row :: putRows name value rest

def put (table : Table α) (name : String) (value : α) : Table α :=
  ⟨putRows name value table.rows⟩

/-- The table without `name`; the other names keep their order. -/
def erase (table : Table α) (name : String) : Table α :=
  ⟨table.rows.filter fun row => !(row.1 == name)⟩

/-- The table with all of `rows` put into it, in order. -/
def putAll (table : Table α) (rows : List (String × α)) : Table α :=
  rows.foldl (fun table row => table.put row.1 row.2) table

def ofList (rows : List (String × α)) : Table α :=
  empty.putAll rows

/-- The first name whose value passes `test`. -/
def nameOf? (table : Table α) (test : α → Bool) : Option String :=
  (table.rows.find? fun row => test row.2).map (·.1)

theorem get?_put_self (table : Table α) (name : String) (value : α) :
    (table.put name value).get? name = some value := by
  obtain ⟨rows⟩ := table
  induction rows with
  | nil => simp [put, putRows, get?]
  | cons row rest ih =>
    by_cases h : row.1 = name <;> simp_all [put, putRows, get?]

theorem get?_put_of_ne (table : Table α) {name other : String} (value : α) (h : other ≠ name) :
    (table.put name value).get? other = table.get? other := by
  obtain ⟨rows⟩ := table
  induction rows with
  | nil => simp [put, putRows, get?, Ne.symm h]
  | cons row rest ih =>
    by_cases hn : row.1 = name <;> by_cases ho : row.1 = other <;>
      simp_all [put, putRows, get?]

end Table

end ModuleLinkage.Ledger
