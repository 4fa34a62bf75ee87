/-!
Stores: records under numbers that are given out in order. A number once given out keeps naming the
same record, so whatever changes is named by its number.
-/

set_option autoImplicit false

namespace ModuleLinkage.Ledger

/-- Records, each under its place in the order in which they were added. -/
structure Store (α : Type) where
  items : Array α

namespace Store

variable {α : Type}

instance : Inhabited (Store α) := ⟨⟨#[]⟩⟩

def empty : Store α :=
  ⟨#[]⟩

/-- The number that the next record gets. -/
def size (store : Store α) : Nat :=
  store.items.size

/-- The record under `index`, or the default one where there is none. -/
def get [Inhabited α] (store : Store α) (index : Nat) : α :=
  store.items[index]?.getD default

def add (store : Store α) (item : α) : Store α :=
  ⟨store.items.push item⟩

/-- The store with the record under `index` changed. -/
def update (store : Store α) (index : Nat) (change : α → α) : Store α :=
  ⟨store.items.modify index change⟩

@[simp] theorem size_add (store : Store α) (item : α) : (store.add item).size = store.size + 1 := by
  simp [add, size]

@[simp] theorem size_update (store : Store α) (index : Nat) (change : α → α) :
    (store.update index change).size = store.size := by
  simp [update, size]

@[simp] theorem get_add_size [Inhabited α] (store : Store α) (item : α) :
    (store.add item).get store.size = item := by
  simp [add, get, size]

theorem get_add_of_lt [Inhabited α] (store : Store α) (item : α) {index : Nat}
    (h : index < store.size) : (store.add item).get index = store.get index := by
  have : index ≠ store.items.size := Nat.ne_of_lt h
  simp [add, get, Array.getElem?_push, this]

theorem get_update_self [Inhabited α] (store : Store α) (change : α → α) {index : Nat}
    (h : index < store.size) :
    (store.update index change).get index = change (store.get index) := by
  have h : index < store.items.size := h
  simp [update, get, Array.getElem_modify, h]

theorem get_update_of_ne [Inhabited α] (store : Store α) (change : α → α) {index other : Nat}
    (h : other ≠ index) : (store.update index change).get other = store.get other := by
  simp [update, get, Array.getElem?_modify, Ne.symm h]

end Store

end ModuleLinkage.Ledger
