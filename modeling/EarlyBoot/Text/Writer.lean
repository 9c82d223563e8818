/-!
# Writers

A writer takes text piece by piece and may refuse a piece.  What is written in
several pieces ends with the first one that is refused.
-/

namespace EarlyBoot.Text

structure Refused where
  deriving DecidableEq, Repr

abbrev WriteM (σ : Type) := EStateM Refused σ

class Writer (σ : Type) where
  put : String → WriteM σ Unit

/-- A string takes every piece. -/
instance : Writer String := ⟨fun piece => modify (· ++ piece)⟩

def written (text : WriteM String Unit) : Bool × String :=
  match text "" with
  | .ok _ result => (true, result)
  | .error _ result => (false, result)

end EarlyBoot.Text
