import Persola.Tools.Wire

/-!
# `Tools.Leaves` — the objects that name a tool

`_normalize_calls` follows `tool_calls` into what an object wraps, reads arguments that are a text as JSON, and keeps
every object with a name. `leaves` says what that is for: it collects the objects with a name that a value leads to.
-/

namespace Persola.Tools

open Json

variable {ν : Type*} [Numeral ν]

/-! ## The objects that name a tool -/

mutual

/-- The objects with a name that a value leads to, through arrays and `tool_calls`. -/
def leaves : Json ν → List (List (String × Json ν))
  | .obj raw =>
      match leavesWrapped raw with
      | some inner => inner
      | none => if (raw.lookup "name").isSome then [raw] else []
  | .arr items => leavesItems items
  | _ => []

/-- Those under `tool_calls`, if there is that key. -/
def leavesWrapped : List (String × Json ν) → Option (List (List (String × Json ν)))
  | [] => none
  | (k, v) :: raw => if k = "tool_calls" then some (leaves v) else leavesWrapped raw

/-- Those of the items, one after the other. -/
def leavesItems : List (Json ν) → List (List (String × Json ν))
  | [] => []
  | item :: items => leaves item ++ leavesItems items

end

/-- The call an object with a name stands for. -/
def leafCall (repr : Json ν → String) (raw : List (String × Json ν)) : ToolCall ν :=
  ⟨nameText repr ((raw.lookup "name").getD .null), dictOf (readArguments (arguments raw))⟩

section
variable {repr : Json ν → String} {raw : List (String × Json ν)} {w name : Json ν}

omit [Numeral ν] in
theorem leavesWrapped_eq (raw : List (String × Json ν)) :
    leavesWrapped raw = (raw.lookup "tool_calls").map leaves :=
  eq_map_lookup (by rw [leavesWrapped]) (fun k v raw => by rw [leavesWrapped]) raw

omit [Numeral ν] in
theorem mem_of_lookup {key : String} {v : Json ν} (h : raw.lookup key = some v) : (key, v) ∈ raw := by
  induction raw with
  | nil => cases h
  | cons f raw ih =>
      obtain ⟨k, u⟩ := f
      rw [List.lookup_cons] at h
      split at h
      · next hk =>
          rw [beq_iff_eq.mp hk, Option.some.inj h]
          exact List.mem_cons_self
      · exact List.mem_cons_of_mem _ (ih h)

/-- **`_normalize_calls` returns one call for each object with a name** that the value leads to. -/
theorem normalizeCalls_eq_map (repr : Json ν → String) (v : Json ν) :
    normalizeCalls repr v = (leaves v).map (leafCall repr) := by
  induction v using rec_mem with
  | null => rfl
  | bool b => rfl
  | number n => rfl
  | str s => rfl
  | arr items ih =>
      rw [normalizeCalls, leaves]
      induction items with
      | nil => rfl
      | cons item items ihItems =>
          obtain ⟨hitem, hitems⟩ := List.forall_mem_cons.mp ih
          rw [normalizeItems, leavesItems, List.map_append, hitem, ihItems hitems]
  | obj raw ih =>
      rw [normalizeCalls, leaves, normalizeWrapped_eq, leavesWrapped_eq]
      cases hwrap : raw.lookup "tool_calls" with
      | some w => exact ih _ (mem_of_lookup hwrap)
      | none =>
          cases hname : raw.lookup "name" with
          | none => rfl
          | some name =>
              show _ = [leafCall repr raw]
              rw [leafCall, hname]
              rfl

end

end Persola.Tools
