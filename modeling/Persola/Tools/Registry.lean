import Persola.Lib.Py

/-!
# `Tools.Registry` — tools by name, and the calls of them

A registry is a dictionary of tools. What a tool does is its handler; who runs the calls of a list, and in which
order, depends on the flag `parallel_safe` of the tools they name.
-/

namespace Persola.Tools

variable {η α : Type*}

/-- `ToolSpec`. -/
structure ToolSpec (η : Type*) where
  name : String
  handler : η
  parallelSafe : Bool := true

/-- `ToolRegistry`. -/
abbrev ToolRegistry (η : Type*) := List (String × ToolSpec η)

namespace ToolRegistry

/-- `ToolRegistry.register`: a later tool of the same name takes the place of the earlier one. -/
def register (registry : ToolRegistry η) (spec : ToolSpec η) : ToolRegistry η := Py.setItem registry spec.name spec

/-- `ToolRegistry.get`. -/
def get (registry : ToolRegistry η) (name : String) : Option (ToolSpec η) := Py.getItem registry name

/-- The tool of a name is there and may run beside others. -/
def Parallel (registry : ToolRegistry η) (name : String) : Prop :=
  ∃ spec, registry.get name = some spec ∧ spec.parallelSafe = true

/-- The tool of a name is there and may not. -/
def Serial (registry : ToolRegistry η) (name : String) : Prop :=
  ∃ spec, registry.get name = some spec ∧ spec.parallelSafe = false

theorem not_serial_of_parallel {registry : ToolRegistry η} {name : String} (h : registry.Parallel name) :
    ¬ registry.Serial name := by
  rintro ⟨spec, hspec, hserial⟩
  obtain ⟨spec', hspec', hparallel⟩ := h
  obtain rfl : spec' = spec := Option.some.inj (hspec'.symm.trans hspec)
  rw [hparallel] at hserial
  cases hserial

end ToolRegistry

/-- A call: the name of a tool and its arguments. -/
structure Call (α : Type*) where
  name : String
  args : α
deriving DecidableEq

end Persola.Tools
