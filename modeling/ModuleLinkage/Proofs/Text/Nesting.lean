import ModuleLinkage.Proofs.Text.Rearranging

/-!
# Edits that open and close

Some edits insert the beginning of a call and others the closing parenthesis. A list of edits is
`Nested` if each beginning in it is followed by an end that belongs to it, with whole calls and other
edits in between. A nested list stays nested when another one is put anywhere into it
(`Nested.splice`), which is how the edits for the parts of a tree come together.
-/

set_option autoImplicit false

namespace ModuleLinkage.Text

/-- Whether an edit inserts the beginning of a call or a closing parenthesis. Hoisted code is whole
statements. -/
def Edit.IsBracket (edit : Edit) : Prop :=
  edit.placement = .inline ∧ (edit.text = [')'] ∨ edit.text.getLast? = some '(')

/-- Edits in which every beginning of a call is followed by its end; `calls` says which two belong
together. -/
inductive Nested (calls : Edit → Edit → Prop) : List Edit → Prop
  | nil : Nested calls []
  | other {edit : Edit} {rest : List Edit} (hother : ¬ edit.IsBracket) (hrest : Nested calls rest) :
      Nested calls (edit :: rest)
  | call {first last : Edit} {inner rest : List Edit} (hcall : calls first last)
      (hinner : Nested calls inner) (hrest : Nested calls rest) :
      Nested calls (first :: (inner ++ last :: rest))

namespace Nested

variable {calls calls' : Edit → Edit → Prop} {before middle after edits : List Edit}

theorem mono (hcalls : ∀ first last, calls first last → calls' first last)
    (h : Nested calls edits) : Nested calls' edits := by
  induction h with
  | nil => exact .nil
  | other hother _ ih => exact .other hother ih
  | call hcall _ _ ihInner ihRest => exact .call (hcalls _ _ hcall) ihInner ihRest

theorem single {edit : Edit} (hother : ¬ edit.IsBracket) : Nested calls [edit] :=
  .other hother .nil

theorem append (hfirst : Nested calls before) (hsecond : Nested calls after) :
    Nested calls (before ++ after) := by
  induction hfirst with
  | nil => exact hsecond
  | other hother _ ih => exact .other hother ih
  | call hcall hinner _ _ ih =>
    rw [List.cons_append, List.append_assoc, List.cons_append]
    exact .call hcall hinner ih

/-- A call around nested edits. -/
theorem enclose {first last : Edit} (hcall : calls first last) (h : Nested calls edits) :
    Nested calls (first :: (edits ++ [last])) :=
  .call hcall h .nil

/-- Nested edits may be put anywhere among nested edits. -/
theorem splice (h : Nested calls (before ++ after)) (hmiddle : Nested calls middle) :
    Nested calls (before ++ (middle ++ after)) := by
  generalize hlist : before ++ after = edits at h
  induction h generalizing before after with
  | nil =>
    obtain ⟨rfl, rfl⟩ := List.append_eq_nil_iff.mp hlist
    simpa using hmiddle
  | @other edit rest hother hrest ih =>
    cases before with
    | nil =>
      rw [List.nil_append] at hlist ⊢
      exact hmiddle.append (hlist ▸ .other hother hrest)
    | cons first before =>
      rw [List.cons_append, List.cons.injEq] at hlist
      obtain ⟨rfl, hlist⟩ := hlist
      exact .other hother (ih hlist)
  | @call first last inner rest hcall hinner hrest ihInner ihRest =>
    cases before with
    | nil =>
      rw [List.nil_append] at hlist ⊢
      exact hmiddle.append (hlist ▸ .call hcall hinner hrest)
    | cons head before =>
      rw [List.cons_append, List.cons.injEq] at hlist
      obtain ⟨rfl, hlist⟩ := hlist
      rcases List.append_eq_append_iff.mp hlist with ⟨inside, rfl, rfl⟩ | ⟨outside, rfl, hrest'⟩
      · have hput := Nested.call hcall (ihInner rfl) hrest
        simpa only [List.cons_append, List.append_assoc] using hput
      · cases outside with
        | nil =>
          rw [List.nil_append] at hrest'
          subst hrest'
          have hput := Nested.call hcall (hinner.append hmiddle) hrest
          simpa only [List.cons_append, List.append_assoc, List.append_nil] using hput
        | cons next outside =>
          rw [List.cons_append, List.cons.injEq] at hrest'
          obtain ⟨rfl, rfl⟩ := hrest'
          have hput := Nested.call hcall hinner (ihRest rfl)
          simpa only [List.cons_append, List.append_assoc] using hput

end Nested

end ModuleLinkage.Text
