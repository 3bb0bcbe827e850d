import Mathlib.Data.List.Forall2

/-!
# `Unwinding` — what an observer learns from the answers of a machine

A machine answers one input after another. Two runs of it look the same to an observer if a relation between their
states, and one between their inputs, make single answers look the same and are kept from state to state.
-/

namespace Unwinding

variable {S I O V : Type*}

/-- The answers to some inputs, one after the other. -/
def answers (respond : S → I → O × S) : S → List I → List O
  | _, [] => []
  | s, i :: is => (respond s i).1 :: answers respond (respond s i).2 is

variable {respond : S → I → O × S} {view : O → V} {R : S → S → Prop} {L : I → I → Prop} {s t : S} {is js : List I}

end Unwinding
