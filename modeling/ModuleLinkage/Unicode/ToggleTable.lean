/-!
Sets of code points, kept as the increasing sequence of the points at which membership changes.
A point belongs to the set exactly when an odd number of changes stands at or below it.
-/

set_option autoImplicit false

namespace ModuleLinkage.Unicode

/-- Increasing code points; membership is off before the first and changes at each. -/
abbrev ToggleTable := Array Nat

namespace ToggleTable

/-- The number of changes at or below `point` among those with index from `low` to `high`,
plus `low`, found by halving the range. -/
def countBetween (table : ToggleTable) (point low high : Nat) : Nat :=
  if _h : low < high then
    let middle := (low + high) / 2
    match table[middle]? with
    | some change =>
      if change ≤ point then countBetween table point (middle + 1) high
      else countBetween table point low middle
    | none => low
  else low
termination_by high - low

/-- Whether `c` belongs to the set. -/
def contains (table : ToggleTable) (c : Char) : Bool :=
  table.countBetween c.toNat 0 table.size % 2 == 1

end ToggleTable

end ModuleLinkage.Unicode
