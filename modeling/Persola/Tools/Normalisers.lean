import Persola.Tools.Flattening

/-!
# `Tools.Normalisers` — one format, two normalisers

`CityService.execute_tool_calls` takes a list of calls: texts, which it gives to `parse_tool_calls`, and objects, for
which it has a normaliser of its own. `_normalize_calls` follows `tool_calls` into what an object wraps, reads arguments
that are a text as JSON, and keeps every object with a name. The other one does none of this: it looks at the object
alone, takes arguments that are no object for none, and skips a name that is not true.

On the objects for which both mean the same calls (`SameCalls`) the normalisers agree, and on no others.
-/

namespace Persola.Tools.Limited

open Json
open Number (Fault)

variable {ν : Type*} [Numeral ν]

/-! ## `CityService.execute_tool_calls` -/

section
variable (repr : Json ν → String)

omit [Numeral ν] in
/-- The calls of an object in `calls`. -/
def structured (call : List (String × Json ν)) : List (ToolCall ν) :=
  match call.lookup "name" with
  | none => []
  | some name => if name.truthy then [⟨nameText repr name, dictOf (arguments call)⟩] else []

/-- The calls of an item of `calls`. -/
def normalizedItem : Json ν → Except Fault (List (ToolCall ν))
  | .str text => parseToolCalls repr text.toList
  | .obj call => .ok (structured repr call)
  | _ => .ok []

/-- `normalized` -/
def normalized (calls : List (Json ν)) : Except Fault (List (ToolCall ν)) :=
  (calls.mapM (normalizedItem repr)).map List.flatten

/-- The calls of an object are what `_normalize_calls` makes of it, wherever the object stands. -/
def NormalizedAlike (call : List (String × Json ν)) : Prop :=
  ∀ before after, normalized repr (before ++ .obj call :: after) = do
    let earlier ← normalized repr before
    let calls ← normalizeCalls repr (.obj call)
    let later ← normalized repr after
    return earlier ++ (calls ++ later)

end

/-! ## Where the normalisers agree -/

/-- Arguments that are no text, or a text that says nothing as JSON either. -/
def Plain (args : Json ν) : Prop := ∀ s, args = .str s → ∃ v, loads (ν := ν) s.toList = .ok v ∧ dictOf v = []

/-- The objects that mean the same calls to both normalisers: without a name and without wrapped calls; with a
    name that is true and plain arguments; and around what they wrap, if it is nothing, or the very call they are
    themselves. -/
inductive SameCalls (repr : Json ν → String) (call : List (String × Json ν)) : Prop
  | nothing (hwrap : call.lookup "tool_calls" = none) (hname : call.lookup "name" = none)
  | named {name : Json ν} (hwrap : call.lookup "tool_calls" = none) (hname : call.lookup "name" = some name)
      (htruthy : name.truthy) (hargs : Plain (arguments call))
  | wrapsNothing {w : Json ν} (hwrap : call.lookup "tool_calls" = some w)
      (hname : ∀ name ∈ call.lookup "name", name.truthy = false) (hleaves : leaves w = [])
  | wrapsItself {w name args : Json ν} {leaf : List (String × Json ν)} (hwrap : call.lookup "tool_calls" = some w)
      (hname : call.lookup "name" = some name) (htruthy : name.truthy) (hleaves : leaves w = [leaf])
      (hsame : nameText repr ((leaf.lookup "name").getD .null) = nameText repr name)
      (hread : readArguments (arguments leaf) = .ok args) (hargs : dictOf args = dictOf (arguments call))

section
variable {repr : Json ν → String} {call leaf : List (String × Json ν)} {w name args : Json ν}

theorem leafCall_eq_ok_iff {c : ToolCall ν} : leafCall repr leaf = .ok c ↔
    ∃ args, readArguments (arguments leaf) = .ok args ∧
      (⟨nameText repr ((leaf.lookup "name").getD .null), dictOf args⟩ : ToolCall ν) = c := by
  rw [leafCall]
  exact map_eq_ok_iff

/-- Arguments that are read as what they are taken for without reading are plain. -/
theorem plain_iff : Plain args ↔ ∃ v, readArguments args = .ok v ∧ dictOf v = dictOf args := by
  cases args with
  | str s =>
      have hempty : dictOf (Json.str (ν := ν) s) = [] := rfl
      rw [hempty]
      constructor
      · intro h
        obtain ⟨v, hv, hdict⟩ := h s rfl
        refine ⟨v, ?_, hdict⟩
        rw [readArguments, loadsOr, hv]
      · rintro ⟨v, hread, hdict⟩ t ht
        obtain rfl := Json.str.inj ht
        rw [readArguments, loadsOr] at hread
        cases hloads : loads (ν := ν) s.toList with
        | ok u =>
            rw [hloads] at hread
            exact ⟨v, congrArg Except.ok (Except.ok.inj hread), hdict⟩
        | error e =>
            rw [hloads] at hread
            cases e with
            | decodeError =>
                rw [← Except.ok.inj hread] at hdict
                exact absurd hdict (List.cons_ne_nil _ _)
            | valueError => cases hread
  | null | bool | number | arr | obj => exact iff_of_true (fun s hs => by cases hs) ⟨_, rfl, rfl⟩

/-- What the structured normaliser makes of an object. -/
theorem structured_of_true (hname : call.lookup "name" = some name) (htruthy : name.truthy) :
    structured repr call = [⟨nameText repr name, dictOf (arguments call)⟩] := by
  rw [structured, hname]
  exact if_pos htruthy

theorem structured_of_false (hname : ∀ name ∈ call.lookup "name", name.truthy = false) :
    structured repr call = [] := by
  rw [structured]
  cases hlookup : call.lookup "name" with
  | none => rfl
  | some name =>
      refine if_neg ?_
      rw [hname name hlookup]
      exact Bool.false_ne_true

/-- Of an object the structured normaliser makes no more than one call. -/
theorem length_structured_le (repr : Json ν → String) (call : List (String × Json ν)) :
    (structured repr call).length ≤ 1 := by
  rw [structured]
  split
  · exact Nat.zero_le 1
  · split
    · exact Nat.le_refl 1
    · exact Nat.zero_le 1

theorem normalizeCalls_of_wrap (hwrap : call.lookup "tool_calls" = some w) :
    normalizeCalls repr (.obj call) = (leaves w).mapM (leafCall repr) := by
  rw [normalizeCalls_eq_mapM, leaves, leavesWrapped_eq, hwrap]
  rfl

theorem normalizeCalls_of_name (hwrap : call.lookup "tool_calls" = none) (hname : call.lookup "name" = some name) :
    normalizeCalls repr (.obj call) = [call].mapM (leafCall repr) := by
  rw [normalizeCalls_eq_mapM, leaves, leavesWrapped_eq, hwrap, Option.map_none, hname]
  rfl

theorem normalizeCalls_of_no_name (hwrap : call.lookup "tool_calls" = none) (hname : call.lookup "name" = none) :
    normalizeCalls repr (.obj call) = .ok [] := by
  rw [normalizeCalls_eq_mapM, leaves, leavesWrapped_eq, hwrap, Option.map_none, hname]
  rfl

/-- One call is made, of one object. -/
theorem mapM_leafCall_eq_iff {raws : List (List (String × Json ν))} {c : ToolCall ν} :
    raws.mapM (leafCall repr) = .ok [c] ↔ ∃ leaf, raws = [leaf] ∧ leafCall repr leaf = .ok c := by
  rw [mapM_eq_ok_iff, List.forall₂_cons_right_iff]
  constructor
  · rintro ⟨leaf, raws, hcall, hnil, rfl⟩
    obtain rfl := List.forall₂_nil_right_iff.mp hnil
    exact ⟨leaf, rfl, hcall⟩
  · rintro ⟨leaf, rfl, hcall⟩
    exact ⟨leaf, [], hcall, .nil, rfl⟩

/-- **On one object** the normalisers agree where it means the same calls to both. -/
theorem normalizeCalls_eq_structured_iff :
    normalizeCalls repr (.obj call) = .ok (structured repr call) ↔ SameCalls repr call := by
  constructor
  · intro h
    cases hwrap : call.lookup "tool_calls" with
    | none =>
        cases hname : call.lookup "name" with
        | none => exact .nothing hwrap hname
        | some name =>
            rw [normalizeCalls_of_name hwrap hname] at h
            cases htruthy : name.truthy with
            | false =>
                have hfalse : ∀ name ∈ call.lookup "name", name.truthy = false := by
                  intro name' hname'
                  rw [← Option.some.inj (hname.symm.trans hname'), htruthy]
                rw [structured_of_false hfalse, mapM_eq_ok_iff, List.forall₂_nil_right_iff] at h
                cases h
            | true =>
                rw [structured_of_true hname htruthy] at h
                obtain ⟨leaf, hleaf, hcall⟩ := mapM_leafCall_eq_iff.mp h
                obtain rfl := (List.cons.inj hleaf).1
                obtain ⟨args, hread, hcall⟩ := leafCall_eq_ok_iff.mp hcall
                exact .named hwrap hname htruthy (plain_iff.mpr ⟨args, hread, congrArg Call.args hcall⟩)
    | some w =>
        rw [normalizeCalls_of_wrap hwrap] at h
        by_cases htrue : ∃ name, call.lookup "name" = some name ∧ name.truthy
        · obtain ⟨name, hname, htruthy⟩ := htrue
          rw [structured_of_true hname htruthy] at h
          obtain ⟨leaf, hleaves, hcall⟩ := mapM_leafCall_eq_iff.mp h
          obtain ⟨args, hread, hcall⟩ := leafCall_eq_ok_iff.mp hcall
          obtain ⟨hsame, hargs⟩ := Call.mk.inj hcall
          exact .wrapsItself hwrap hname htruthy hleaves hsame hread hargs
        · have hfalse : ∀ name ∈ call.lookup "name", name.truthy = false := by
            intro name hname
            cases htruthy : name.truthy with
            | false => rfl
            | true => exact absurd ⟨name, hname, htruthy⟩ htrue
          rw [structured_of_false hfalse, mapM_eq_ok_iff, List.forall₂_nil_right_iff] at h
          exact .wrapsNothing hwrap hfalse h
  · intro h
    cases h with
    | nothing hwrap hname =>
        rw [normalizeCalls_of_no_name hwrap hname, structured_of_false]
        rw [hname]
        exact fun _ h => by cases h
    | named hwrap hname htruthy hargs =>
        obtain ⟨args, hread, hdict⟩ := plain_iff.mp hargs
        rw [normalizeCalls_of_name hwrap hname, structured_of_true hname htruthy, mapM_leafCall_eq_iff]
        refine ⟨call, rfl, leafCall_eq_ok_iff.mpr ⟨args, hread, ?_⟩⟩
        rw [hname, hdict]
        rfl
    | wrapsNothing hwrap hname hleaves =>
        rw [normalizeCalls_of_wrap hwrap, structured_of_false hname, hleaves]
        rfl
    | wrapsItself hwrap hname htruthy hleaves hsame hread hargs =>
        rw [normalizeCalls_of_wrap hwrap, structured_of_true hname htruthy, mapM_leafCall_eq_iff]
        exact ⟨_, hleaves, leafCall_eq_ok_iff.mpr ⟨_, hread, by rw [hsame, hargs]⟩⟩

theorem normalized_singleton (v : Json ν) : normalized repr [v] = normalizedItem repr v := by
  rw [normalized, List.mapM_cons, List.mapM_nil]
  cases normalizedItem repr v with
  | error e => rfl
  | ok calls => exact congrArg Except.ok (List.append_nil calls)

/-- The calls of an item stand between those of the items before it and those of the items behind it. -/
theorem normalized_append_cons (before after : List (Json ν)) (v : Json ν) :
    normalized repr (before ++ v :: after) = do
      let earlier ← normalized repr before
      let calls ← normalizedItem repr v
      let later ← normalized repr after
      return earlier ++ (calls ++ later) := by
  rw [normalized, normalized, normalized, List.mapM_append, List.mapM_cons]
  cases before.mapM (normalizedItem repr) with
  | error e => rfl
  | ok earlier =>
      cases normalizedItem repr v with
      | error e => rfl
      | ok calls =>
          cases after.mapM (normalizedItem repr) with
          | error e => rfl
          | ok later =>
              exact congrArg Except.ok (List.flatten_append.trans (congrArg (earlier.flatten ++ ·) List.flatten_cons))

/-- **Wherever an object stands**, its calls are those of `_normalize_calls` exactly if it means the same to both. -/
theorem normalizedAlike_iff : NormalizedAlike repr call ↔ SameCalls repr call := by
  rw [← normalizeCalls_eq_structured_iff]
  constructor
  · intro h
    have halone := h [] []
    rw [List.nil_append, normalized_singleton] at halone
    cases hcalls : normalizeCalls repr (.obj call) with
    | error e =>
        rw [hcalls] at halone
        cases halone
    | ok calls =>
        rw [hcalls] at halone
        have heq : structured repr call = calls ++ [] := Except.ok.inj halone
        rw [heq, List.append_nil]
  · intro h before after
    rw [normalized_append_cons, h]
    rfl

/-- **An object sent as text** is parsed to the structured calls exactly if what is read in the text fits. -/
theorem parseToolCalls_object_iff (hcall : (Json.obj call).Valid) (hsame : SameCalls repr call) :
    parseToolCalls repr (dumps (.obj call)) = .ok (structured repr call) ↔ TextFits ν (dumps (.obj call)) := by
  have hreturns : (∃ calls, parseToolCalls repr (dumps (.obj call)) = .ok calls) ↔ TextFits ν (dumps (.obj call)) :=
    exists_parseToolCalls_iff
  rw [← hreturns]
  constructor
  · intro h
    exact ⟨_, h⟩
  · rintro ⟨calls, hparse⟩
    have hcalls : Tools.normalizeCalls repr (.obj call) = structured repr call :=
      normalizeCalls_of_ok (normalizeCalls_eq_structured_iff.mpr hsame)
    have honce : deduplicate [] (structured repr call) = structured repr call := by
      refine deduplicate_eq_self (fun _ _ => List.not_mem_nil) ?_
      have hlength := length_structured_le repr call
      cases hstructured : structured repr call with
      | nil => exact .nil
      | cons first rest =>
          rw [hstructured, List.length_cons] at hlength
          rw [List.length_eq_zero_iff.mp (by omega : rest.length = 0)]
          exact List.pairwise_singleton _ _
    rw [hparse, ← parseToolCalls_of_ok hparse, Tools.parseToolCalls_object repr hcall, hcalls, honce]

/-- **The two normalisers agree** on an object, wherever it stands in the list of calls, exactly if it means the same
    calls to both; and the object sent as text runs these calls too exactly if what is read in the text fits. -/
theorem normalisers_agree_iff (repr : Json ν → String) (hcall : (Json.obj call).Valid) :
    (NormalizedAlike repr call ↔ SameCalls repr call) ∧
    (NormalizedAlike repr call ∧
        normalized repr [.str (String.ofList (dumps (.obj call)))] = normalized repr [.obj call] ↔
      SameCalls repr call ∧ TextFits ν (dumps (.obj call))) := by
  refine ⟨normalizedAlike_iff, ?_⟩
  rw [normalizedAlike_iff]
  refine and_congr_right fun hsame => ?_
  rw [normalized_singleton, normalized_singleton, normalizedItem, String.toList_ofList]
  exact parseToolCalls_object_iff hcall hsame

end

/-- A call as it is meant to be sent. -/
def plainCall : List (String × Json ℤ) := [("name", .str "workspace_list"), ("args", .obj [("path", .str ".")])]

/-- Both run it. -/
theorem plainCall_agrees : SameCalls (fun _ => "") plainCall ∧ TextFits ℤ (dumps (.obj plainCall)) ∧
    normalized (fun _ => "") [.str (String.ofList (dumps (.obj plainCall)))] =
      normalized (fun _ => "") [.obj plainCall] := by
  have hargs : (Json.obj [("path", Json.str (ν := ℤ) ".")]).Valid := by
    refine .obj (List.nodup_singleton _) fun f hf => ?_
    rw [List.mem_singleton.mp hf]
    exact .str
  have hvalid : (Json.obj plainCall).Valid :=
    .obj (by decide) (List.forall_mem_cons.mpr ⟨.str, List.forall_mem_singleton.mpr hargs⟩)
  have hsame : SameCalls (fun _ => "") plainCall := by
    refine .named rfl rfl (by decide) fun s hs => ?_
    cases hs
  have hok : (parseToolCalls (fun _ : Json ℤ => "") (dumps (.obj plainCall))).isOk = true := by decide +kernel
  have hfits : TextFits ℤ (dumps (.obj plainCall)) := by
    cases hparse : parseToolCalls (fun _ : Json ℤ => "") (dumps (.obj plainCall)) with
    | ok calls => exact exists_parseToolCalls_iff.mp ⟨calls, hparse⟩
    | error e =>
        rw [hparse] at hok
        cases hok
  exact ⟨hsame, hfits, ((normalisers_agree_iff (fun _ => "") hvalid).2.mpr ⟨hsame, hfits⟩).2⟩

/-- A call with its arguments as a text, as models send them. -/
def textCall : List (String × Json ℤ) :=
  [("name", .str "workspace_write"), ("args", .str "\x7b\"path\": \"a\"\x7d")]

/-- The structured normaliser runs it without arguments. -/
theorem textCall_loses_arguments : (Json.obj textCall).Valid ∧
    normalized (fun _ => "") [.obj textCall] = .ok [⟨"workspace_write", []⟩] ∧
    normalizeCalls (fun _ => "") (.obj textCall) ≠ normalized (fun _ => "") [.obj textCall] ∧
    ¬ NormalizedAlike (fun _ => "") textCall := by
  have hvalid : (Json.obj textCall).Valid :=
    .obj (by decide) (List.forall_mem_cons.mpr ⟨.str, List.forall_mem_singleton.mpr .str⟩)
  have hstructured : structured (fun _ => "") textCall = [⟨"workspace_write", []⟩] := rfl
  have hargs : (normalizeCalls (fun _ => "") (.obj textCall)).toOption.map (·.map fun call => call.args.length) =
      some [1] := by decide +kernel
  have hne : normalizeCalls (fun _ => "") (.obj textCall) ≠ .ok (structured (fun _ => "") textCall) := by
    intro heq
    rw [heq, hstructured] at hargs
    exact absurd hargs (by decide)
  refine ⟨hvalid, ?_, ?_, fun halike => ?_⟩
  · rw [normalized_singleton, normalizedItem, hstructured]
  · rw [normalized_singleton, normalizedItem]
    exact hne
  · exact hne (normalizeCalls_eq_structured_iff.mpr (normalizedAlike_iff.mp halike))

end Persola.Tools.Limited
