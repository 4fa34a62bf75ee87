import ModuleLinkage.Lowering.Registration
import ModuleLinkage.Text.Quoted

/-!
The generated line at the top of a module. It registers the exports, declares the variables and
namespaces that imports fill, and then requests the other modules in source order, each with the
callbacks that take their exports.
-/

set_option autoImplicit false

namespace ModuleLinkage.Lowering

open Text

/-- `text` in braces. -/
def braced (text : List Char) : List Char :=
  '\x7b' :: (text ++ ['\x7d'])

/-- Items separated by commas. -/
def commaSeparated (items : List (List Char)) : List Char :=
  List.intercalate [','] items

/-- Statements separated by semicolons. -/
def semicolonSeparated (items : List (List Char)) : List Char :=
  List.intercalate [';'] items

/-- Adds underscores to `name`, at most `bound` of them, until it is not in `taken`. -/
def freshNameUpTo (taken : List String) : Nat → String → String
  | 0, name => name
  | bound + 1, name => if taken.contains name then freshNameUpTo taken bound (name ++ "_") else name

/-- The first of `base`, `base_`, `base__`, … that is not in `taken`. -/
def freshName (base : String) (taken : List String) : String :=
  freshNameUpTo taken taken.length base

/-- Adds `value` to the group of `key`, which is made at the end if there is none. -/
def addToGroup (key value : String) :
    List (String × List String) → List (String × List String)
  | [] => [(key, [value])]
  | (present, values) :: rest =>
    if present == key then (present, values ++ [value]) :: rest
    else (present, values) :: addToGroup key value rest

/-- The second components of `pairs` grouped by the first, in the order in which these come
first. -/
def groupByFirst (pairs : List (String × String)) : List (String × List String) :=
  pairs.foldl (fun groups pair => addToGroup pair.1 pair.2 groups) []

/-- A property whose value is a function that gives `result`. -/
def getter (exported result : String) : List Char :=
  propertyKey exported.toList ++ ":()=>".toList ++ result.toList

/-- A call of the module reference's operation `operation`. -/
def callOf (reference operation : String) (arguments : List (List Char)) : List Char :=
  reference.toList ++ '.' :: operation.toList ++ '(' :: commaSeparated arguments ++ [')']

/-- The registration of the getters `getters`. -/
def exportCall (reference : String) (getters : List (List Char)) (constant : Bool) : List Char :=
  callOf reference "export"
    (braced (commaSeparated getters) :: (if constant then ["true".toList] else []))

/-- A callback under the key `key`. -/
def setter (key : List Char) (parameters : List String) (body : List Char) : List Char :=
  key ++ '(' :: commaSeparated (parameters.map String.toList) ++ ')' :: braced body

/-- The key of the callback that takes every export. -/
def wildcardKey : List Char :=
  quote ['*']

/-- An assignment of `value` to the member `name` of `object`. -/
def memberAssignment (object name value : String) : List Char :=
  object.toList ++ '[' :: name.toList ++ "]=".toList ++ value.toList

/-- What a request is written from: the module reference, and the variables whose changes the
importers of this module are told of. -/
structure Scheme where
  reference : String
  exported : List String
  deriving Inhabited

/-- The assignment of a received value to an imported variable, announced if that is exported. -/
def importAssignment (scheme : Scheme) (value target : String) : List Char :=
  let assignment := target.toList ++ '=' :: value.toList
  if scheme.exported.contains target then callOf scheme.reference "runSetters" [assignment]
  else assignment

/-- The call that requests a module with callbacks. The offset is the key that tells this request
from the others of the module. -/
def requestCall (reference specifier : String) (setters : List (List Char)) (offset : Nat)
    (namespaces : List String) : List Char :=
  callOf reference "importSync"
    ([quote specifier.toList, braced (commaSeparated setters), Nat.toDigits 10 offset] ++
      (if namespaces.isEmpty then []
        else ['[' :: commaSeparated (namespaces.map String.toList) ++ [']']]))

/-- The request of a module whose exports are imported. -/
def bindingsCall (scheme : Scheme) (specifier : String) (offset : Nat)
    (names : List (String × String)) (namespaces : List String) : List Char :=
  if names.isEmpty && namespaces.isEmpty then
    callOf scheme.reference "importSync" [quote specifier.toList]
  else
    let taken := names.map (·.2) ++ namespaces ++ [scheme.reference]
    let value := freshName "v" taken
    let name := freshName "n" taken
    let single := (groupByFirst names).map fun (imported, targets) =>
      setter (propertyKey imported.toList) [value]
        (semicolonSeparated (targets.map (importAssignment scheme value)))
    let wildcard :=
      if namespaces.isEmpty then []
      else
        [setter wildcardKey [value, name]
          (semicolonSeparated (namespaces.map fun object => memberAssignment object name value))]
    requestCall scheme.reference specifier (single ++ wildcard) offset namespaces

/-- The request of a module some of whose exports are exported again. -/
def reExportCall (reference specifier : String) (offset : Nat) (names : List (String × String)) :
    List Char :=
  let value := freshName "v" [reference]
  let setters := (groupByFirst names).map fun (imported, exported) =>
    setter (propertyKey imported.toList) [value]
      (exportCall reference (exported.map fun name => getter name value) true)
  requestCall reference specifier setters offset []

/-- The request of a module all of whose exports but the default one are exported again. -/
def reExportAllCall (reference specifier : String) (offset : Nat) : List Char :=
  let value := freshName "v" [reference]
  let name := freshName "n" [reference]
  let key := '[' :: name.toList ++ "]:()=>".toList ++ value.toList
  let body := name.toList ++ "!==".toList ++ quote "default".toList ++ "&&".toList ++
    exportCall reference [key] true
  requestCall reference specifier [setter wildcardKey [value, name] body] offset []

/-- The request of a module an object of whose exports is exported. -/
def reExportNamespaceCall (reference specifier : String) (offset : Nat) (exported : String) :
    List Char :=
  let object := freshName "o" [reference]
  let value := freshName "v" [reference, object]
  let name := freshName "n" [reference, object]
  let register := exportCall reference [getter exported object] true
  let request := requestCall reference specifier
    [setter wildcardKey [value, name] (memberAssignment object name value)] offset [object]
  '(' :: object.toList ++ "=>".toList ++ braced (register ++ ';' :: request) ++
    ")(Object.create(null))".toList

/-- The statement that makes a request. -/
def requestStatement (scheme : Scheme) (request : Request) : List Char :=
  (match request.use with
  | .bindings names namespaces =>
    bindingsCall scheme request.specifier request.offset names namespaces
  | .reExport names => reExportCall scheme.reference request.specifier request.offset names
  | .reExportAll => reExportAllCall scheme.reference request.specifier request.offset
  | .reExportNamespace exported =>
    reExportNamespaceCall scheme.reference request.specifier request.offset exported) ++ [';']

/-- The statement that registers exports, if there are any. -/
def exportStatement (reference : String) (exports : List Export) (constant : Bool) : List Char :=
  if exports.isEmpty then []
  else
    let getters := exports.map fun item => getter item.exported item.localName
    exportCall reference getters constant ++ [';']

/-- The items of a list without those that came before. -/
def withoutRepetition (names : List String) : List String :=
  (names.foldl (fun kept name => if kept.contains name then kept else name :: kept) []).reverse

/-- The declaration of the variables that imports assign. -/
def importVariables (requests : List Request) : List Char :=
  let names := withoutRepetition (requests.flatMap fun request =>
    request.importedVariables.map (·.2))
  if names.isEmpty then []
  else "let ".toList ++ commaSeparated (names.map String.toList) ++ [';']

/-- The declarations of the objects that namespace imports fill. -/
def importObjects (requests : List Request) : List Char :=
  (requests.flatMap Request.importedNamespaces).flatMap fun name =>
    "const ".toList ++ name.toList ++ "=Object.create(null);".toList

/-- The requests in the order of their declarations. -/
def inSourceOrder (requests : List Request) : List Request :=
  requests.mergeSort fun first second => first.offset ≤ second.offset

/-- The whole generated line. The exports of `constants` are registered as constant. -/
def hoistedCode (reference : String) (constants : List String) (exports : List Export)
    (requests : List Request) : List Char :=
  let isConstant (item : Export) : Bool := constants.contains item.localName
  let scheme : Scheme := ⟨reference, exports.map Export.localName⟩
  exportStatement reference (exports.filter fun item => !isConstant item) false ++
    exportStatement reference (exports.filter isConstant) true ++
    importVariables requests ++ importObjects requests ++
    (inSourceOrder requests).flatMap (requestStatement scheme)

end ModuleLinkage.Lowering
