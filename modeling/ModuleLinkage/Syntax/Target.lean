import ModuleLinkage.Syntax.Node

/-!
Assignment targets. What stands left of an assignment operator is first read as an expression;
`toTarget?` turns it into the target that it spells, if it spells one. Objects and arrays become
patterns of targets, parentheses around a simple target fall away, and calls, literals and optional
accesses are no targets.
-/

set_option autoImplicit false

namespace ModuleLinkage.Syntax

namespace Node

/-- Whether an expression, behind any parentheses and changes of type, is a variable or a
member. -/
def isPlace : Node → Bool
  | mk _ form parts =>
    match form, parts with
    | .reference _, _ => true
    | .member, _ => true
    | .index, _ => true
    | .parenthesized, inner :: _ => isPlace inner
    | .cast, inner :: _ => isPlace inner
    | .nonNull, inner :: _ => isPlace inner
    | .instantiation, inner :: _ => isPlace inner
    | _, _ => false

/-- Whether an expression spells a pattern. -/
def isCollection (node : Node) : Bool :=
  match node.form with
  | .array | .object => true
  | _ => false

/-- Where in a target a part of it stands; `last` says that no other part follows. -/
inductive TargetRole where
  | whole
  | element (last : Bool)
  | property (last : Bool)
  deriving Repr, DecidableEq

mutual

/-- The target that an expression, or a property of an object, spells in a given role. In an
element an assignment gives a default value; only the last element or property may be spread, and
only a simple target collects properties. -/
def toTargetAs? (role : TargetRole) : Node → Option Node
  | mk span form parts =>
    match form, parts with
    | .reference _, _ => some (mk span form parts)
    | .member, _ => some (mk span form parts)
    | .index, _ => some (mk span form parts)
    | .cast, inner :: _ => if isPlace inner then some (mk span form parts) else none
    | .nonNull, inner :: _ => if isPlace inner then some (mk span form parts) else none
    | .parenthesized, [inner] => if isCollection inner then none else toTargetAs? .whole inner
    | .array, elements => (elementTargets? elements).map (mk span .arrayTarget)
    | .object, properties => (propertyTargets? properties).map (mk span .objectTarget)
    | .assignment "=", _ =>
      match role with
      | .element _ => some (mk span .defaultTarget parts)
      | _ => none
    | .spread false, [inner] =>
      match role with
      | .element true =>
        (toTargetAs? .whole inner).map fun target => mk span .restTarget [target]
      | .property true =>
        if isCollection inner then none
        else (toTargetAs? .whole inner).map fun target => mk span .restTarget [target]
      | _ => none
    | .property, [key, value] =>
      (toTargetAs? (.element false) value).map fun target => mk span .propertyTarget [key, target]
    | .shorthand, _ => some (mk span .shorthandTarget parts)
    | .shorthandDefault, _ => some (mk span .shorthandTarget parts)
    | _, _ => none

/-- The targets that the elements of an array spell. -/
def elementTargets? : List Node → Option (List Node)
  | [] => some []
  | element :: rest =>
    match toTargetAs? (.element rest.isEmpty) element, elementTargets? rest with
    | some target, some targets => some (target :: targets)
    | _, _ => none

/-- The targets that the properties of an object spell. -/
def propertyTargets? : List Node → Option (List Node)
  | [] => some []
  | property :: rest =>
    match toTargetAs? (.property rest.isEmpty) property, propertyTargets? rest with
    | some target, some targets => some (target :: targets)
    | _, _ => none

end

/-- The target that an expression spells. -/
def toTarget? (node : Node) : Option Node :=
  toTargetAs? .whole node

/-- The target that an expression spells, if it is no pattern. -/
def toSimpleTarget? (node : Node) : Option Node :=
  if isCollection node then none else toTarget? node

mutual

/-- Whether a node holds an object with a default value that did not become part of a target. -/
def hasStrayDefault : Node → Bool
  | mk _ form parts =>
    match form with
    | .shorthandDefault => true
    | _ => anyStrayDefault parts

def anyStrayDefault : List Node → Bool
  | [] => false
  | node :: rest => hasStrayDefault node || anyStrayDefault rest

end

end Node

end ModuleLinkage.Syntax
