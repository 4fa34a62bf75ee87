/-!
Documents: the plain data that options are read from and that snapshots are written as.
-/

set_option autoImplicit false

namespace ModuleLinkage

/-- Plain data: scalars, lists, and objects whose keys are distinct. -/
inductive Document where
  | null
  | bool (value : Bool)
  | number (value : Float)
  | text (value : String)
  | list (items : List Document)
  | object (fields : List (String × Document))
  deriving Inhabited

/-- The value of field `key` of an object. -/
def Document.field? (key : String) : Document → Option Document
  | .object fields => (fields.find? fun field => field.1 == key).map (·.2)
  | _ => none

end ModuleLinkage
