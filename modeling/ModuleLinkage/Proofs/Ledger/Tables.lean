import ModuleLinkage.Ledger.Table

/-!
# Tables

What is in a table after values were put into it, one (`Table.put`) or many of them
(`Table.putAll`), and that different names stay different.
-/

set_option autoImplicit false

namespace ModuleLinkage.Ledger.Table

variable {α : Type} {row : String × α}

theorem get?_put (table : Table α) (name other : String) (value : α) :
    (table.put name value).get? other = if other = name then some value else table.get? other := by
  split
  · next h => rw [h, get?_put_self]
  · next h => exact get?_put_of_ne table value h

/-- Of two values put under one name the second one stays. -/
theorem put_put (table : Table α) (name : String) (value other : α) :
    (table.put name value).put name other = table.put name other := by
  have hrows (rows : List (String × α)) :
      putRows name other (putRows name value rows) = putRows name other rows := by
    induction rows with
    | nil => simp [putRows]
    | cons row rest ih =>
      by_cases hrow : row.1 = name
      · simp [putRows, hrow]
      · simp [putRows, hrow, ih]
  exact congrArg Table.mk (hrows table.rows)

theorem get?_putAll_of_not_mem (table : Table α) {rows : List (String × α)} {name : String}
    (h : name ∉ rows.map (·.1)) : (table.putAll rows).get? name = table.get? name := by
  induction rows generalizing table with
  | nil => rfl
  | cons row rest ih =>
    rw [List.map_cons, List.mem_cons, not_or] at h
    exact (ih (table.put row.1 row.2) h.2).trans (get?_put_of_ne table row.2 h.1)

/-- Values under different names are all in a table once they were put into it. -/
theorem get?_putAll_of_mem (table : Table α) {rows : List (String × α)}
    (hrows : (rows.map (·.1)).Nodup) (h : row ∈ rows) :
    (table.putAll rows).get? row.1 = some row.2 := by
  induction rows generalizing table with
  | nil => exact absurd h List.not_mem_nil
  | cons first rest ih =>
    obtain ⟨hfirst, hrest⟩ := List.nodup_cons.mp hrows
    rcases List.mem_cons.mp h with rfl | h
    · exact (get?_putAll_of_not_mem _ hfirst).trans (get?_put_self table _ _)
    · exact ih (table.put first.1 first.2) hrest h

theorem mem_putRows {name : String} {value : α} {rows : List (String × α)}
    (h : row ∈ putRows name value rows) : row ∈ rows ∨ row = (name, value) := by
  induction rows with
  | nil => exact .inr (List.mem_singleton.mp h)
  | cons first rest ih =>
    unfold putRows at h
    split at h
    · rcases List.mem_cons.mp h with rfl | hrow
      · exact .inr rfl
      · exact .inl (List.mem_cons_of_mem _ hrow)
    · rcases List.mem_cons.mp h with rfl | hrow
      · exact .inl List.mem_cons_self
      · exact (ih hrow).imp_left (List.mem_cons_of_mem _)

theorem mem_rows_put {table : Table α} {name : String} {value : α}
    (h : row ∈ (table.put name value).rows) : row ∈ table.rows ∨ row = (name, value) :=
  mem_putRows h

theorem mem_rows_putAll {table : Table α} {rows : List (String × α)}
    (h : row ∈ (table.putAll rows).rows) : row ∈ table.rows ∨ row ∈ rows := by
  unfold putAll at h
  induction rows generalizing table with
  | nil => exact .inl h
  | cons first rest ih =>
    rcases ih h with hrow | hrow
    · exact (mem_rows_put hrow).imp_right fun hfirst => List.mem_cons.mpr (.inl hfirst)
    · exact .inr (List.mem_cons_of_mem _ hrow)

/-- Putting a value under a name keeps the names of a table different. -/
theorem nodup_names_put {table : Table α} (h : table.names.Nodup) (name : String) (value : α) :
    (table.put name value).names.Nodup := by
  have hnames (rows : List (String × α)) : (putRows name value rows).map (·.1) =
      if name ∈ rows.map (·.1) then rows.map (·.1) else rows.map (·.1) ++ [name] := by
    induction rows with
    | nil => rfl
    | cons row rest ih =>
      by_cases hrow : row.1 = name
      · simp [putRows, hrow]
      · have hrow' : ¬ name = row.1 := fun h => hrow h.symm
        simp only [putRows, beq_iff_eq, hrow, if_false, List.map_cons, List.mem_cons, hrow',
          false_or, ih]
        split <;> rfl
  unfold names put at *
  rw [hnames]
  split
  · exact h
  · next hnew =>
    refine List.nodup_append.mpr ⟨h, by simp, fun other hother added hadded heq => ?_⟩
    obtain rfl := List.mem_singleton.mp hadded
    exact hnew (heq ▸ hother)

theorem nodup_names_putAll {table : Table α} (h : table.names.Nodup) (rows : List (String × α)) :
    (table.putAll rows).names.Nodup := by
  unfold putAll
  induction rows generalizing table with
  | nil => exact h
  | cons row rest ih => exact ih (nodup_names_put h row.1 row.2)

/-- Rows with new names are put at the end of a table. -/
theorem rows_putAll (table : Table α) {rows : List (String × α)}
    (hrows : (rows.map (·.1)).Nodup) (hnew : ∀ row ∈ rows, row.1 ∉ table.rows.map (·.1)) :
    (table.putAll rows).rows = table.rows ++ rows := by
  have hput (name : String) (value : α) (others : List (String × α))
      (hname : name ∉ others.map (·.1)) :
      putRows name value others = others ++ [(name, value)] := by
    induction others with
    | nil => rfl
    | cons other others ih =>
      rw [List.map_cons, List.mem_cons, not_or] at hname
      have hne : ¬ (other.1 == name) = true := by simpa using Ne.symm hname.1
      rw [putRows, if_neg hne, ih hname.2]
      rfl
  induction rows generalizing table with
  | nil => exact (List.append_nil _).symm
  | cons row rest ih =>
    rw [List.map_cons, List.nodup_cons] at hrows
    have hfirst := hput row.1 row.2 table.rows (hnew row (by simp))
    have hrest := ih (table.put row.1 row.2) hrows.2 ?_
    · change ((table.put row.1 row.2).putAll rest).rows = _
      rw [hrest]
      change putRows row.1 row.2 table.rows ++ rest = _
      rw [hfirst, List.append_assoc]
      rfl
    · intro other hother
      change other.1 ∉ (putRows row.1 row.2 table.rows).map (·.1)
      rw [hfirst, List.map_append, List.mem_append, not_or]
      refine ⟨hnew other (by simp [hother]), fun hmem => hrows.1 ?_⟩
      have heq : other.1 = row.1 := List.mem_singleton.mp hmem
      rw [← heq]
      exact List.mem_map_of_mem hother

theorem rows_ofList {rows : List (String × α)} (hrows : (rows.map (·.1)).Nodup) :
    (Table.ofList rows).rows = rows :=
  rows_putAll .empty hrows fun _ _ => by simp [empty]

end ModuleLinkage.Ledger.Table
