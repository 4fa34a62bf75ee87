/-!
Why linking fails while modules run, and the texts that say so.
-/

set_option autoImplicit false

namespace ModuleLinkage.Ledger

/-- An error that a module body, a provider or the host may meet. -/
inductive LinkError where
  /-- A module asks for another one, but no host serves it. -/
  | notEnabled (id : String)
  /-- Nothing is known under `specifier`, which the module `requester` asked for. -/
  | unresolved (specifier requester : String)
  | load (id reason : String)
  | thrown (message : String)
  deriving Repr, DecidableEq, Inhabited

def LinkError.message : LinkError → String
  | notEnabled id => "module `" ++ id ++ "` has no runtime host installed"
  | unresolved specifier requester =>
    "cannot resolve `" ++ specifier ++ "` from `" ++ requester ++ "`"
  | load id reason => "failed to load `" ++ id ++ "`: " ++ reason
  | thrown message => "uncaught error: " ++ message

/-- Why an effect has no result. -/
inductive Fault where
  | failed (error : LinkError)
  /-- A program names something that does not exist. -/
  | unbound (name : String)
  /-- Callbacks are nested deeper than the bound on their depth. -/
  | exhausted
  deriving Repr, DecidableEq, Inhabited

end ModuleLinkage.Ledger
