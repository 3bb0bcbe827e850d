import Persola.Integrations.LlmSettings
import Persola.Lib.Decimals
import Persola.Lib.Layout

/-!
# `Integrations.Durable` — settings that were saved stay saved

The settings of a file are a fixpoint of dumping and validating, so they are read back as they were whatever the
environment says, but for one: a temperature that is `nan` passes the bounds of its field and is written as `null`, so
that the default is read in its place (`readBack`). The invariant of a run is that the file, if there is one, was written
from validated settings, and that a fresh load reads back what is cached (`Inv`); when a call to save does what is
promised of it follows (`promised_iff`).
-/

namespace Persola.Integrations

namespace Host

variable {ν ω : Type*} {h : Host ν ω} {d e : List (String × Any ν ω)} {s : LLMSettings ν} {k : String}

/-! ## Validation -/

theorem modelValidate_eq_some_iff : h.modelValidate d = some s ↔
    (∀ f, h.textOf d f = some (s.text f)) ∧ h.temperatureOf d = some s.temperature ∧
      h.maxTokensOf d = some s.maxTokens := by
  have hall : (TextField.provider :: .model :: TextField.others).all (fun f => (h.textOf d f).isSome) = true ↔
      ∀ f, (h.textOf d f).isSome := by
    rw [List.all_eq_true]
    refine ⟨fun hall f => hall f ?_, fun hall f _ => hall f⟩
    rcases f.mem_others with rfl | rfl | hf
    · exact List.mem_cons_self
    · exact List.mem_cons_of_mem _ List.mem_cons_self
    · exact List.mem_cons_of_mem _ (List.mem_cons_of_mem _ hf)
  unfold modelValidate
  simp only [Option.bind_eq_bind, Option.bind_eq_some_iff, Option.ite_none_right_eq_some, Option.some.injEq, hall]
  constructor
  · rintro ⟨t, ht, n, hn, htext, rfl⟩
    refine ⟨fun f => ?_, ht, hn⟩
    obtain ⟨x, hx⟩ := Option.isSome_iff_exists.mp (htext f)
    show h.textOf d f = some ((h.textOf d f).getD "")
    rw [hx, Option.getD_some]
  · rintro ⟨htext, ht, hn⟩
    refine ⟨_, ht, _, hn, fun f => by rw [htext f, Option.isSome_some], ?_⟩
    simp only [htext, Option.getD_some]

/-- Only the fields of the settings are looked at. -/
theorem modelValidate_congr (heq : ∀ k ∈ fieldKeys, Py.getItem d k = Py.getItem e k) :
    h.modelValidate d = h.modelValidate e := by
  have htext (f : TextField) : h.textOf d f = h.textOf e f := by
    unfold textOf
    rw [heq _ f.key_mem]
  unfold modelValidate temperatureOf maxTokensOf
  simp only [htext, heq "temperature" (by decide +kernel), heq "max_tokens" (by decide +kernel)]

/-- The dump as values of Python. -/
def dump (ω : Type*) (s : LLMSettings ν) : List (String × Any ν ω) := s.modelDump.map fun kv => (kv.1, .json kv.2)

theorem keys_dump (s : LLMSettings ν) : (dump ω s).map Prod.fst = fieldKeys := by
  simp [dump, LLMSettings.modelDump, fieldKeys]

theorem getItem_dump_of_mem {v : Json ν} (hv : (k, v) ∈ s.modelDump) : Py.getItem (dump ω s) k = some (.json v) := by
  have hkeys : ((dump ω s).map Prod.fst).Nodup := by
    rw [keys_dump]
    exact nodup_fieldKeys
  exact Py.getItem_of_mem hkeys (List.mem_map_of_mem (f := fun kv => (kv.1, Any.json kv.2)) hv)

theorem mem_modelDump_text (s : LLMSettings ν) (f : TextField) : (f.key, .str (s.text f)) ∈ s.modelDump := by
  unfold LLMSettings.modelDump
  rcases f.mem_others with rfl | rfl | hf
  · exact List.mem_cons_self
  · exact List.mem_cons_of_mem _ List.mem_cons_self
  · exact List.mem_append_right [_, _, _, _] (List.mem_map_of_mem (f := fun f => (f.key, Json.str (s.text f))) hf)

theorem mem_modelDump_temperature (s : LLMSettings ν) : ("temperature", .number s.temperature) ∈ s.modelDump := by
  simp [LLMSettings.modelDump]

theorem mem_modelDump_maxTokens (s : LLMSettings ν) : ("max_tokens", .number s.maxTokens) ∈ s.modelDump := by
  simp [LLMSettings.modelDump]

/-- The settings were validated from data with all fields. -/
def Validated (h : Host ν ω) (s : LLMSettings ν) : Prop :=
  ∃ d, (∀ k ∈ fieldKeys, Py.getItem d k ≠ none) ∧ h.modelValidate d = some s

/-! ## Patching -/

/-- What an entry of a patch puts in the place of a field, if anything. -/
def written (k : String) (v : Any ν ω) : Option (Any ν ω) :=
  if IsSecret k ∧ v.isEmptyText then none
  else if v.isNone ∧ IsSecret k then some (.json (.str ""))
  else some v

theorem getItem_patchEntry (hk : k ∈ d.map Prod.fst) (e : String × Any ν ω) :
    k ∈ (patchEntry d e).map Prod.fst ∧
      Py.getItem (patchEntry d e) k = if e.1 = k then (written k e.2).or (Py.getItem d k) else Py.getItem d k := by
  have hset {j : String} {v : Any ν ω} : k ∈ (Py.setItem d j v).map Prod.fst := by
    rw [← Py.getItem_ne_none_iff, Py.getItem_setItem]
    split
    · exact Option.some_ne_none v
    · exact Py.getItem_ne_none_iff.mpr hk
  unfold patchEntry written
  by_cases he : e.1 = k
  · subst he
    rw [if_pos rfl, if_pos hk]
    split
    · exact ⟨hk, rfl⟩
    · split
      · exact ⟨hset, by rw [Py.getItem_setItem, if_pos rfl, Option.some_or]⟩
      · exact ⟨hset, by rw [Py.getItem_setItem, if_pos rfl, Option.some_or]⟩
  · rw [if_neg he]
    split
    · exact ⟨hk, rfl⟩
    · split
      · exact ⟨hset, by rw [Py.getItem_setItem, if_neg he]⟩
      · split
        · exact ⟨hset, by rw [Py.getItem_setItem, if_neg he]⟩
        · exact ⟨hk, rfl⟩

/-- **A patched field** has what the patch writes, if it writes anything. -/
theorem getItem_patched (s : LLMSettings ν) (patch : Patch ν ω) (hk : k ∈ fieldKeys) :
    Py.getItem (patched s patch) k =
      ((Py.getItem patch.entries k).bind (written k)).or (Py.getItem (dump ω s) k) := by
  have hfold (l d : List (String × Any ν ω)) (hl : (l.map Prod.fst).Nodup) (hd : k ∈ d.map Prod.fst) :
      Py.getItem (l.foldl patchEntry d) k = ((Py.getItem l k).bind (written k)).or (Py.getItem d k) := by
    induction l generalizing d with
    | nil => rfl
    | cons e l ih =>
        obtain ⟨hnew, hl⟩ := List.nodup_cons.mp hl
        obtain ⟨hkey, hget⟩ := getItem_patchEntry hd e
        rw [List.foldl_cons, ih _ hl hkey, hget, Py.getItem_cons]
        by_cases he : e.1 = k
        · have hnone : Py.getItem l k = none := by
            rw [← not_ne_iff, Py.getItem_ne_none_iff]
            exact he ▸ hnew
          rw [if_pos he, if_pos he, hnone]
          rfl
        · rw [if_neg he, if_neg he]
  exact hfold patch.entries (dump ω s) patch.nodup (keys_dump (ω := ω) s ▸ hk)

/-- The entries of a patch for the fields there are. -/
def known (patch : Patch ν ω) : Patch ν ω where
  entries := patch.entries.filter fun e => e.1 ∈ fieldKeys
  nodup := patch.nodup.sublist ((List.filter_sublist).map _)

theorem modelValidate_known (s : LLMSettings ν) (patch : Patch ν ω) :
    h.modelValidate (patched s (known patch)) = h.modelValidate (patched s patch) := by
  refine modelValidate_congr fun k hk => ?_
  have hget : Py.getItem (known patch).entries k = Py.getItem patch.entries k := by
    unfold Py.getItem known
    rw [List.find?_filter]
    congr 2
    funext e
    by_cases he : e.1 = k
    · simp [he, hk]
    · simp [he]
  rw [getItem_patched s _ hk, getItem_patched s _ hk, hget]

/-- What a patch makes of the settings. -/
theorem Validated.of_patched {current : LLMSettings ν} {patch : Patch ν ω}
    (hs : h.modelValidate (patched current patch) = some s) : h.Validated s := by
  refine ⟨_, fun k hk hnone => ?_, hs⟩
  rw [getItem_patched current patch hk, Option.or_eq_none_iff] at hnone
  have hmem : k ∈ (dump ω current).map Prod.fst := keys_dump (ω := ω) current ▸ hk
  exact Py.getItem_ne_none_iff.mpr hmem hnone.2

/-! ## Numbers -/

/-- The numbers of validated settings are values of their fields, within their bounds. -/
theorem Validated.numbers (hs : h.Validated s) :
    (∃ v, h.float v = some s.temperature ∧ h.within 0 2 s.temperature) ∧
      ∃ v, h.int v = some s.maxTokens ∧ h.within 1 128000 s.maxTokens := by
  obtain ⟨d, hfull, hvalid⟩ := hs
  obtain ⟨-, ht, hn⟩ := modelValidate_eq_some_iff.mp hvalid
  unfold temperatureOf at ht
  unfold maxTokensOf at hn
  obtain ⟨v, hv⟩ := Option.ne_none_iff_exists'.mp (hfull "temperature" (by decide +kernel))
  obtain ⟨w, hw⟩ := Option.ne_none_iff_exists'.mp (hfull "max_tokens" (by decide +kernel))
  rw [hv] at ht
  rw [hw] at hn
  exact ⟨⟨v, Option.filter_eq_some_iff.mp ht⟩, ⟨w, Option.filter_eq_some_iff.mp hn⟩⟩

/-- What is within bounds is finite or `nan`. -/
theorem finite_or_nan {lower upper : ℚ} {x : ν} (hx : h.within lower upper x) :
    (∃ q, h.value x = .finite q) ∨ h.value x = .nan := by
  unfold within at hx
  cases hvalue : h.value x with
  | finite q => exact .inl ⟨q, rfl⟩
  | inf | negInf =>
      rw [hvalue] at hx
      cases hx
  | nan => exact .inr rfl

/-- A value as JSON has it: numbers that are not finite are written as `null`. -/
def jsonValue (h : Host ν ω) : Json ν → Json ν
  | .number x =>
      match h.value x with
      | .finite _ => .number x
      | _ => .null
  | v => v

/-- What the JSON text of settings says. -/
def jsonDump (h : Host ν ω) (s : LLMSettings ν) : List (String × Json ν) :=
  s.modelDump.map fun kv => (kv.1, h.jsonValue kv.2)

theorem keys_jsonDump (s : LLMSettings ν) : (h.jsonDump s).map Prod.fst = fieldKeys := by
  have hkeys := keys_dump (ω := ω) s
  rw [dump, List.map_map] at hkeys
  unfold jsonDump
  rw [List.map_map]
  exact hkeys

/-- The settings as they are read back: for a temperature that is `nan` the default. -/
def readBack (h : Host ν ω) (s : LLMSettings ν) : LLMSettings ν :=
  if h.value s.temperature = .nan then { s with temperature := h.literal (7/10) } else s

theorem readBack_eq_self (hs : h.value s.temperature ≠ .nan) : h.readBack s = s := if_neg hs

theorem readBack_text (s : LLMSettings ν) : (h.readBack s).text = s.text ∧ (h.readBack s).maxTokens = s.maxTokens := by
  unfold readBack
  split <;> exact ⟨rfl, rfl⟩

/-! ## What is documented -/

variable [Numeral ν]

/-- What is documented of pydantic: a value of the type of its field is kept, what a number was read as is such a value
and so are the defaults, integers and defaults are no `nan`, and the JSON text says what the dump says, with `null` for
numbers that are not finite. -/
structure Documented (h : Host ν ω) : Prop where
  str_str : ∀ s, h.str (.json (.str s)) = some s
  float_number : ∀ v x, h.float v = some x → h.float (.json (.number x)) = some x
  int_number : ∀ v n, h.int v = some n → h.int (.json (.number n)) = some n
  float_default : h.float (.json (.number (h.literal (7/10)))) = some (h.literal (7/10))
  int_default : h.int (.json (.number (h.literal 2000))) = some (h.literal 2000)
  int_finite : ∀ v n, h.int v = some n → h.value n ≠ .nan
  default_finite : h.value (h.literal (7/10)) ≠ .nan
  loads_modelDumpJson : ∀ s, h.Validated s → Json.loads (h.modelDumpJson s) = some (.obj (h.jsonDump s))

/-- The number of tokens is written as it is. -/
theorem Validated.jsonValue_maxTokens (hd : h.Documented) (hs : h.Validated s) :
    h.jsonValue (.number s.maxTokens) = .number s.maxTokens := by
  obtain ⟨-, v, hv, hwithin⟩ := hs.numbers
  rcases finite_or_nan hwithin with ⟨q, hq⟩ | hnan
  · rw [jsonValue, hq]
  · exact absurd hnan (hd.int_finite v _ hv)

/-! ## Loading -/

/-- What a forced load validates. -/
def fresh (h : Host ν ω) (file : Option (List Char)) (environ : Environ) : Option (LLMSettings ν) :=
  h.modelValidate (Py.assign (h.envBootstrap environ) (fileData file))

/-- What is read back is no `nan`. -/
theorem readBack_ne_nan (hd : h.Documented) (s : LLMSettings ν) : h.value (h.readBack s).temperature ≠ .nan := by
  unfold readBack
  split
  · exact hd.default_finite
  · next hne => exact hne

/-- The entries of the file of validated settings. -/
theorem fileData_modelDumpJson (hd : h.Documented) (hs : h.Validated s) :
    fileData (some (h.modelDumpJson s)) =
      ((h.jsonDump s).map fun kv => (kv.1, (.json kv.2 : Any ν ω))).filter fun kv => !kv.2.isNone := by
  unfold fileData
  rw [Option.bind_some, hd.loads_modelDumpJson s hs]

theorem nodup_fileData (hd : h.Documented) (hs : h.Validated s) :
    ((fileData (some (h.modelDumpJson s)) : List (String × Any ν ω)).map Prod.fst).Nodup := by
  have hkeys : (((h.jsonDump s).map fun kv => (kv.1, (.json kv.2 : Any ν ω))).map Prod.fst).Nodup := by
    rw [List.map_map]
    exact (keys_jsonDump s : (h.jsonDump s).map Prod.fst = fieldKeys) ▸ nodup_fieldKeys
  rw [fileData_modelDumpJson hd hs]
  exact hkeys.sublist (List.filter_sublist.map _)

/-- A field of the file. -/
theorem getItem_fileData (hd : h.Documented) (hs : h.Validated s) {v : Json ν} (hv : (k, v) ∈ s.modelDump) :
    Py.getItem (fileData (some (h.modelDumpJson s)) : List (String × Any ν ω)) k =
      if (Any.json (ω := ω) (h.jsonValue v)).isNone then none else some (.json (h.jsonValue v)) := by
  have hentry : (k, h.jsonValue v) ∈ h.jsonDump s := List.mem_map_of_mem (f := fun kv => (kv.1, h.jsonValue kv.2)) hv
  split
  · next hnone =>
      rw [← not_ne_iff, Py.getItem_ne_none_iff, fileData_modelDumpJson hd hs]
      intro hmem
      obtain ⟨e, he, hek⟩ := List.mem_map.mp hmem
      obtain ⟨he, hsome⟩ := List.mem_filter.mp he
      obtain ⟨kv, hkv, rfl⟩ := List.mem_map.mp he
      -- there is one entry for the key
      have hkeys : ((h.jsonDump s).map Prod.fst).Nodup := keys_jsonDump (h := h) s ▸ nodup_fieldKeys
      have hsame : kv = (k, h.jsonValue v) := List.inj_on_of_nodup_map hkeys hkv hentry hek
      subst hsame
      rw [hnone] at hsome
      cases hsome
  · next hsome =>
      refine Py.getItem_of_mem (e := (k, Any.json (h.jsonValue v))) (nodup_fileData hd hs) ?_
      rw [fileData_modelDumpJson hd hs]
      refine List.mem_filter.mpr ⟨List.mem_map_of_mem (f := fun kv => (kv.1, Any.json kv.2)) hentry, ?_⟩
      rw [Bool.not_eq_true] at hsome
      rw [hsome]
      rfl

omit [Numeral ν] in
/-- What the environment says nothing of. -/
theorem getItem_envBootstrap (hk : ∀ f : TextField, f.key ≠ k) (environ : Environ) :
    Py.getItem (h.envBootstrap environ) k = none := by
  refine Option.map_eq_none_iff.mpr (List.find?_eq_none.mpr fun e he heq => ?_)
  simp only [envBootstrap, List.mem_cons, List.not_mem_nil, or_false] at he
  rcases he with rfl | rfl | rfl | rfl | rfl | rfl | rfl | rfl | rfl
  all_goals
    dsimp only at heq
    exact hk _ (of_decide_eq_true heq)

theorem key_ne_temperature (f : TextField) : f.key ≠ "temperature" := by cases f <;> decide

theorem key_ne_maxTokens (f : TextField) : f.key ≠ "max_tokens" := by cases f <;> decide

/-- **What was written is read back**, under any environment, but for a temperature that is `nan`. -/
theorem fresh_modelDumpJson (hd : h.Documented) (hs : h.Validated s) (environ : Environ) :
    h.fresh (some (h.modelDumpJson s)) environ = some (h.readBack s) := by
  have hget (k : String) : Py.getItem (Py.assign (h.envBootstrap environ) (fileData (some (h.modelDumpJson s)))) k =
      (Py.getItem (fileData (some (h.modelDumpJson s))) k).or (Py.getItem (h.envBootstrap environ) k) := by
    rw [Py.getItem_assign, Py.getLast?_filter_key (nodup_fileData hd hs)]
  obtain ⟨⟨v, hv, hwithin⟩, ⟨w, hw, htokens⟩⟩ := hs.numbers
  obtain ⟨htext, hmax⟩ := readBack_text (h := h) s
  refine modelValidate_eq_some_iff.mpr ⟨fun f => ?_, ?_, ?_⟩
  · unfold textOf
    rw [hget, getItem_fileData hd hs (mem_modelDump_text s f), htext]
    exact hd.str_str _
  · unfold temperatureOf
    rw [hget, getItem_fileData hd hs (mem_modelDump_temperature s)]
    rcases finite_or_nan hwithin with ⟨q, hq⟩ | hnan
    · have hfinite : h.value s.temperature ≠ .nan := by
        rw [hq]
        exact fun heq => by cases heq
      rw [readBack_eq_self hfinite, show h.jsonValue (.number s.temperature) = .number s.temperature by
        rw [jsonValue, hq]]
      exact Option.filter_eq_some_iff.mpr ⟨hd.float_number v _ hv, hwithin⟩
    · rw [show h.jsonValue (.number s.temperature) = .null by rw [jsonValue, hnan], readBack, if_pos hnan]
      rw [getItem_envBootstrap key_ne_temperature]
      rfl
  · unfold maxTokensOf
    rw [hget, getItem_fileData hd hs (mem_modelDump_maxTokens s), hs.jsonValue_maxTokens hd, hmax]
    exact Option.filter_eq_some_iff.mpr ⟨hd.int_number w _ hw, htokens⟩

/-- Without a file the environment is enough. -/
theorem fresh_none (hd : h.Documented) (environ : Environ) :
    ∃ s, h.fresh none environ = some s ∧ s.temperature = h.literal (7/10) ∧ s.maxTokens = h.literal 2000 := by
  have htexts : ∀ e ∈ h.envBootstrap environ, ∃ s, e.2 = .json (.str s) := by
    intro e he
    simp only [envBootstrap, List.mem_cons, List.not_mem_nil, or_false] at he
    rcases he with rfl | rfl | rfl | rfl | rfl | rfl | rfl | rfl | rfl
    all_goals exact ⟨_, rfl⟩
  have htext (f : TextField) : ∃ s, h.textOf (h.envBootstrap environ) f = some s := by
    unfold textOf
    cases hf : Py.getItem (h.envBootstrap environ) f.key with
    | none => exact ⟨_, rfl⟩
    | some v =>
        obtain ⟨e, he, rfl⟩ := Option.map_eq_some_iff.mp hf
        obtain ⟨s, hs⟩ := htexts e (List.mem_of_find?_eq_some he)
        exact ⟨s, hs ▸ hd.str_str s⟩
  choose text htext using htext
  refine ⟨⟨text, h.literal (7/10), h.literal 2000⟩, modelValidate_eq_some_iff.mpr ⟨htext, ?_, ?_⟩, rfl, rfl⟩
  · unfold temperatureOf
    rw [show Py.assign (h.envBootstrap environ) (fileData none) = h.envBootstrap environ from rfl,
      getItem_envBootstrap key_ne_temperature]
  · unfold maxTokensOf
    rw [show Py.assign (h.envBootstrap environ) (fileData none) = h.envBootstrap environ from rfl,
      getItem_envBootstrap key_ne_maxTokens]

/-! ## Runs -/

/-- The file, if there is one, was written from validated settings, and a fresh load reads back what is cached. -/
structure Inv (h : Host ν ω) (p : Process ν) : Prop where
  file : ∀ text ∈ p.file, ∃ s, h.Validated s ∧ text = h.modelDumpJson s
  cached : ∀ s ∈ p.cached, h.fresh p.file p.environ = some (h.readBack s)

/-- Settings whose numbers are kept when they are validated again, and are no `nan`. -/
structure Settled (h : Host ν ω) (s : LLMSettings ν) : Prop where
  temperature : h.float (.json (.number s.temperature)) = some s.temperature
  maxTokens : h.int (.json (.number s.maxTokens)) = some s.maxTokens
  finite : h.value s.temperature ≠ .nan

variable {p q : Process ν}

theorem Validated.readBack_settled (hd : h.Documented) (hs : h.Validated s) : h.Settled (h.readBack s) := by
  obtain ⟨⟨v, hv, -⟩, ⟨w, hw, -⟩⟩ := hs.numbers
  refine ⟨?_, ?_, readBack_ne_nan hd s⟩
  · unfold readBack
    split
    · exact hd.float_default
    · exact hd.float_number v _ hv
  · rw [(readBack_text (h := h) s).2]
    exact hd.int_number w _ hw

/-- A fresh load never fails, and gives no `nan`. -/
theorem Inv.fresh (hd : h.Documented) (hp : h.Inv p) : ∃ s, h.fresh p.file p.environ = some s ∧ h.Settled s := by
  cases hfile : p.file with
  | none =>
      obtain ⟨s, hs, htemperature, hmax⟩ := fresh_none hd p.environ
      exact ⟨s, hs, by rw [htemperature]; exact hd.float_default, by rw [hmax]; exact hd.int_default,
        by rw [htemperature]; exact hd.default_finite⟩
  | some text =>
      obtain ⟨s, hs, rfl⟩ := hp.file text hfile
      exact ⟨_, fresh_modelDumpJson hd hs p.environ, hs.readBack_settled hd⟩

/-- What a load gives: what is cached, or a fresh load. -/
theorem load_eq (hs : h.fresh p.file p.environ = some s) (force : Bool) :
    h.loadLlmSettings p force =
      match if force then none else p.cached with
      | some cached => (.ok cached, p)
      | none => (.ok s, { p with cached := some s }) := by
  have hread : h.modelValidate (Py.assign (h.envBootstrap p.environ) (fileData p.file)) = some s := hs
  unfold loadLlmSettings
  cases if force then none else p.cached with
  | some cached => rfl
  | none => simp only [hread]

theorem load_force (hs : h.fresh p.file p.environ = some s) :
    h.loadLlmSettings p true = (.ok s, { p with cached := some s }) := load_eq hs true

/-- What a call to save does: nothing but a load when the patch does not validate. -/
theorem save_eq {current : LLMSettings ν} (hcurrent : h.fresh p.file p.environ = some current) (patch : Patch ν ω) :
    h.saveLlmSettings p patch =
      match h.modelValidate (patched current patch) with
      | none => (.error .validationError, { p with cached := some current })
      | some s =>
          ((setEnviron p.environ (mirrored s)).1.map fun _ => s,
            ⟨some (h.modelDumpJson s), some s, (setEnviron p.environ (mirrored s)).2⟩) := by
  unfold saveLlmSettings
  cases hvalid : h.modelValidate (patched current patch) with
  | none => simp only [load_force hcurrent, hvalid]
  | some s => simp only [load_force hcurrent, hvalid]

theorem Inv.reload (hd : h.Documented) (hp : h.Inv p) (hs : h.fresh p.file p.environ = some s) :
    h.Inv { p with cached := some s } where
  file := hp.file
  cached c hc := by
    obtain rfl := Option.some.inj hc
    obtain ⟨c', hc', hsettled⟩ := hp.fresh hd
    obtain rfl := Option.some.inj (hs.symm.trans hc')
    rw [readBack_eq_self hsettled.finite]
    exact hs

theorem Inv.written (hd : h.Documented) (hs : h.Validated s) (environ : Environ) :
    h.Inv ⟨some (h.modelDumpJson s), some s, environ⟩ where
  file text htext := ⟨s, hs, (Option.some.inj htext).symm⟩
  cached c hc := by
    obtain rfl := Option.some.inj hc
    exact fresh_modelDumpJson hd hs environ

theorem Inv.step (hd : h.Documented) (hp : h.Inv p) {call : Call ν ω} (hq : h.system.step p call = some q) :
    h.Inv q := by
  obtain ⟨current, hcurrent, -⟩ := hp.fresh hd
  cases call with
  | load force =>
      obtain rfl := Option.some.inj hq
      rw [load_eq hcurrent]
      split
      · exact hp
      · exact hp.reload hd hcurrent
  | save patch =>
      obtain rfl := Option.some.inj hq
      rw [save_eq hcurrent]
      cases hvalid : h.modelValidate (patched current patch) with
      | none => exact hp.reload hd hcurrent
      | some s => exact Inv.written hd (Validated.of_patched hvalid) _

theorem inv_of_reachable (hd : h.Documented) (hp : h.system.Reachable p) : h.Inv p := by
  refine hp.invariant (fun q hq => ?_) fun q call r hI _ hr => hI.step hd hr
  obtain ⟨hfile, hcached⟩ := hq
  refine ⟨fun text ht => ?_, fun s hs => ?_⟩
  · rw [hfile] at ht
    cases ht
  · rw [hcached] at hs
    cases hs

/-! ## What is promised -/

/-- The patch does not validate over a fresh load. -/
def Refused (h : Host ν ω) (p : Process ν) (patch : Patch ν ω) : Prop :=
  ∃ current, (h.loadLlmSettings p true).1 = .ok current ∧ h.modelValidate (patched current patch) = none

/-- The file is as it was, and so is what is loaded from now on. -/
structure LeftAlone (h : Host ν ω) (p q : Process ν) : Prop where
  file : q.file = p.file
  environ : q.environ = p.environ
  loads : ∀ force, (h.loadLlmSettings q force).1 = (h.loadLlmSettings p force).1
  anywhere : ∀ environ, (h.loadLlmSettings { q with environ := environ } true).1 =
    (h.loadLlmSettings { p with environ := environ } true).1

/-- The settings are loaded in any environment, by this process and by every new one. -/
structure Durable (h : Host ν ω) (q : Process ν) (s : LLMSettings ν) : Prop where
  here : ∀ environ force, (h.loadLlmSettings { q with environ := environ } force).1 = .ok s
  anew : ∀ environ force, (h.loadLlmSettings ⟨q.file, none, environ⟩ force).1 = .ok s

/-- The settings are those there were, with the values of the patch: an empty secret leaves the stored one, null clears
it. -/
structure Follows (h : Host ν ω) (patch : Patch ν ω) (current s : LLMSettings ν) : Prop where
  unnamed : ∀ f : TextField, Py.getItem patch.entries f.key = none → s.text f = current.text f
  empty : ∀ f : TextField, IsSecret f.key → Py.getItem patch.entries f.key = some (.json (.str "")) →
    s.text f = current.text f
  cleared : ∀ f : TextField, IsSecret f.key → Py.getItem patch.entries f.key = some (.json .null) → s.text f = ""
  text : ∀ (f : TextField) v, Py.getItem patch.entries f.key = some v →
    ¬ (IsSecret f.key ∧ (v.isEmptyText ∨ v.isNone)) → h.str v = some (s.text f)
  temperature : s.temperature = current.temperature ∧ Py.getItem patch.entries "temperature" = none ∨
    ∃ v, Py.getItem patch.entries "temperature" = some v ∧ h.float v = some s.temperature
  maxTokens : s.maxTokens = current.maxTokens ∧ Py.getItem patch.entries "max_tokens" = none ∨
    ∃ v, Py.getItem patch.entries "max_tokens" = some v ∧ h.int v = some s.maxTokens

/-- What is promised of a call to save. -/
structure Promised (h : Host ν ω) (p : Process ν) (patch : Patch ν ω) : Prop where
  /-- What does not validate raises, and changes nothing. -/
  refused : h.Refused p patch → ∃ q, h.saveLlmSettings p patch = (.error .validationError, q) ∧ h.LeftAlone p q
  /-- What a call returned is what is loaded. -/
  durable : ∀ s q, h.saveLlmSettings p patch = (.ok s, q) → h.Durable q s
  follows : ∀ s q current, h.saveLlmSettings p patch = (.ok s, q) → (h.loadLlmSettings p true).1 = .ok current →
    h.Follows patch current s
  /-- Unknown keys change nothing. -/
  unknown : h.saveLlmSettings p patch = h.saveLlmSettings p (known patch)

/-- The temperature of the patch is `nan`. -/
def NanTemperature (h : Host ν ω) (patch : Patch ν ω) : Prop :=
  ∃ v x, Py.getItem patch.entries "temperature" = some v ∧ h.float v = some x ∧ h.value x = .nan

/-- A call that saves no temperature that is `nan`. -/
def Sound (h : Host ν ω) (_ : Process ν) (call : Call ν ω) : Prop :=
  ∀ patch, call = .save patch → ¬ h.NanTemperature patch

/-- The patch validates over a fresh load, and no text that is mirrored has a null character. -/
def Accepted (h : Host ν ω) (p : Process ν) (patch : Patch ν ω) : Prop :=
  ∃ current s, (h.loadLlmSettings p true).1 = .ok current ∧ h.modelValidate (patched current patch) = some s ∧
    ∀ kv ∈ mirrored s, Char.ofNat 0 ∉ kv.2.toList

/-- A temperature that is `nan` is cached. -/
def CachesNan (h : Host ν ω) (p : Process ν) : Prop := ∃ s, p.cached = some s ∧ h.value s.temperature = .nan

/-! ## Durability -/

theorem setEnviron_ok_iff {l : List (String × String)} {environ : Environ} :
    (setEnviron environ l).1 = .ok () ↔ ∀ kv ∈ l, Char.ofNat 0 ∉ kv.2.toList := by
  induction l generalizing environ with
  | nil => simp [setEnviron]
  | cons kv l ih =>
      obtain ⟨key, value⟩ := kv
      rw [setEnviron, List.forall_mem_cons]
      split
      · next hnull => exact iff_of_false (fun h => by cases h) fun h => h.1 hnull
      · next hfine =>
          rw [ih]
          exact (and_iff_right hfine).symm

/-- A call that returns settings has validated them, and has written them. -/
theorem save_eq_ok_iff {current : LLMSettings ν} (hcurrent : h.fresh p.file p.environ = some current)
    {patch : Patch ν ω} : h.saveLlmSettings p patch = (.ok s, q) ↔
      h.modelValidate (patched current patch) = some s ∧ (∀ kv ∈ mirrored s, Char.ofNat 0 ∉ kv.2.toList) ∧
        q = ⟨some (h.modelDumpJson s), some s, (setEnviron p.environ (mirrored s)).2⟩ := by
  rw [save_eq hcurrent]
  cases h.modelValidate (patched current patch) with
  | none => exact iff_of_false (fun h => by cases h) fun h => by cases h.1
  | some u =>
      dsimp only
      constructor
      · intro hu
        obtain ⟨hok, rfl⟩ := Prod.mk.inj hu
        cases hdone : (setEnviron p.environ (mirrored u)).1 with
        | error e =>
            rw [hdone] at hok
            cases hok
        | ok done =>
            rw [hdone] at hok
            obtain rfl := Except.ok.inj hok
            exact ⟨rfl, setEnviron_ok_iff.mp hdone, rfl⟩
      · rintro ⟨hu, hfine, rfl⟩
        obtain rfl := Option.some.inj hu
        rw [setEnviron_ok_iff.mpr hfine]
        rfl

/-- What a load gives from now on, after a fresh one. -/
theorem Inv.leftAlone_iff (hd : h.Documented) (hp : h.Inv p) (hs : h.fresh p.file p.environ = some s) :
    h.LeftAlone p { p with cached := some s } ↔ ¬ h.CachesNan p := by
  constructor
  · rintro hleft ⟨c, hc, hnan⟩
    have hloads := hleft.loads false
    rw [load_eq hs, load_eq (p := { p with cached := some s }) hs] at hloads
    simp only [hc, Bool.false_eq_true, if_false, Except.ok.injEq] at hloads
    obtain ⟨s', hs', hsettled⟩ := hp.fresh hd
    obtain rfl := Option.some.inj (hs.symm.trans hs')
    exact hsettled.finite (hloads ▸ hnan)
  · intro hfinite
    refine ⟨rfl, rfl, fun force => ?_, fun environ => ?_⟩
    · rw [load_eq hs, load_eq (p := { p with cached := some s }) hs]
      cases force with
      | true => rfl
      | false =>
          cases hc : p.cached with
          | none => rfl
          | some c =>
              have hback := hp.cached c hc
              rw [readBack_eq_self fun hnan => hfinite ⟨c, hc, hnan⟩] at hback
              obtain rfl := Option.some.inj (hs.symm.trans hback)
              rfl
    · unfold loadLlmSettings
      dsimp only
      cases h.modelValidate (Py.assign (h.envBootstrap environ) (fileData p.file)) with
      | none => rfl
      | some s => rfl

/-- What was written is durable unless it has a temperature that is `nan`. -/
theorem durable_iff (hd : h.Documented) (hs : h.Validated s) (environ : Environ) :
    h.Durable ⟨some (h.modelDumpJson s), some s, environ⟩ s ↔ h.value s.temperature ≠ .nan := by
  have hload (cached : Option (LLMSettings ν)) (environ : Environ) :
      h.fresh (Process.mk (some (h.modelDumpJson s)) cached environ).file environ = some (h.readBack s) :=
    fresh_modelDumpJson hd hs environ
  constructor
  · intro hdurable hnan
    have hforced := hdurable.here environ true
    rw [load_force (hload (some s) environ)] at hforced
    have hback : h.readBack s = s := Except.ok.inj hforced
    exact readBack_ne_nan hd s (by rw [hback]; exact hnan)
  · intro hfinite
    have hback : h.readBack s = s := readBack_eq_self hfinite
    refine ⟨fun environ force => ?_, fun environ force => ?_⟩
    · rw [load_eq (p := ⟨_, some s, environ⟩) (hload (some s) environ), hback]
      cases force <;> rfl
    · rw [load_eq (p := ⟨_, none, environ⟩) (hload none environ), hback]
      cases force <;> rfl

/-- The settings have the values of the patch. -/
theorem follows_of_patched (hd : h.Documented) {current : LLMSettings ν} {patch : Patch ν ω}
    (hcurrent : h.Settled current) (hs : h.modelValidate (patched current patch) = some s) :
    h.Follows patch current s := by
  obtain ⟨htext, ht, hn⟩ := modelValidate_eq_some_iff.mp hs
  have htextOf (f : TextField) (v : Any ν ω) (hv : ((Py.getItem patch.entries f.key).bind (Host.written f.key)).or
      (some (.json (.str (current.text f)))) = some v) : h.str v = some (s.text f) := by
    have hf := htext f
    unfold textOf at hf
    rwa [getItem_patched current patch f.key_mem, getItem_dump_of_mem (mem_modelDump_text current f), hv] at hf
  have hplain (k : String) (hk : ¬ IsSecret k) (v : Any ν ω) : Host.written k v = some v := by
    rw [Host.written, if_neg fun h => hk h.1, if_neg fun h => hk h.2]
  refine ⟨fun f hf => ?_, fun f hsecret hf => ?_, fun f hsecret hf => ?_, fun f v hf hv => ?_, ?_, ?_⟩
  · have hkept := htextOf f (.json (.str (current.text f))) (by rw [hf]; rfl)
    exact Option.some.inj (hkept.symm.trans (hd.str_str _))
  · have hkept := htextOf f (.json (.str (current.text f)))
      (by rw [hf, Option.bind_some, Host.written, if_pos ⟨hsecret, rfl⟩]; rfl)
    exact Option.some.inj (hkept.symm.trans (hd.str_str _))
  · have hblank := htextOf f (.json (.str ""))
      (by rw [hf, Option.bind_some, Host.written, if_neg (fun h => Bool.false_ne_true h.2), if_pos ⟨rfl, hsecret⟩]; rfl)
    exact Option.some.inj (hblank.symm.trans (hd.str_str _))
  · refine htextOf f v ?_
    rw [hf, Option.bind_some, Host.written, if_neg (fun h => hv ⟨h.1, .inl h.2⟩), if_neg (fun h => hv ⟨h.2, .inr h.1⟩)]
    rfl
  · unfold temperatureOf at ht
    rw [getItem_patched current patch (by decide +kernel), getItem_dump_of_mem (mem_modelDump_temperature current)] at ht
    cases hv : Py.getItem patch.entries "temperature" with
    | none =>
        rw [hv] at ht
        obtain ⟨ht, -⟩ := Option.filter_eq_some_iff.mp ht
        exact .inl ⟨Option.some.inj (ht.symm.trans hcurrent.temperature), rfl⟩
    | some v =>
        rw [hv, Option.bind_some, hplain _ (by decide +kernel)] at ht
        exact .inr ⟨v, rfl, (Option.filter_eq_some_iff.mp ht).1⟩
  · unfold maxTokensOf at hn
    rw [getItem_patched current patch (by decide +kernel), getItem_dump_of_mem (mem_modelDump_maxTokens current)] at hn
    cases hv : Py.getItem patch.entries "max_tokens" with
    | none =>
        rw [hv] at hn
        obtain ⟨hn, -⟩ := Option.filter_eq_some_iff.mp hn
        exact .inl ⟨Option.some.inj (hn.symm.trans hcurrent.maxTokens), rfl⟩
    | some v =>
        rw [hv, Option.bind_some, hplain _ (by decide +kernel)] at hn
        exact .inr ⟨v, rfl, (Option.filter_eq_some_iff.mp hn).1⟩

omit [Numeral ν] in
/-- The temperature that is saved is `nan` just if the one of the patch is. -/
theorem Follows.nan_iff {patch : Patch ν ω} {current : LLMSettings ν} (hcurrent : h.Settled current)
    (hs : h.Follows patch current s) : h.value s.temperature = .nan ↔ h.NanTemperature patch := by
  rcases hs.temperature with ⟨hsame, hnone⟩ | ⟨v, hv, hx⟩
  · refine iff_of_false (hsame ▸ hcurrent.finite) ?_
    rintro ⟨v, x, hv, -, -⟩
    rw [hnone] at hv
    cases hv
  · constructor
    · exact fun hnan => ⟨v, _, hv, hx, hnan⟩
    · rintro ⟨v', x, hv', hx', hnan⟩
      obtain rfl := Option.some.inj (hv.symm.trans hv')
      exact Option.some.inj (hx.symm.trans hx') ▸ hnan

/-- **When a call does what is promised of it**: unless it saves a temperature that is `nan`, or is refused where one is
cached. -/
theorem promised_iff (hd : h.Documented) (hp : h.Inv p) (patch : Patch ν ω) :
    h.Promised p patch ↔ ¬ (h.Accepted p patch ∧ h.NanTemperature patch) ∧ ¬ (h.Refused p patch ∧ h.CachesNan p) := by
  obtain ⟨current, hcurrent, hsettled⟩ := hp.fresh hd
  have hload : (h.loadLlmSettings p true).1 = .ok current := by rw [load_force hcurrent]
  have hresult {c : LLMSettings ν} (hc : (h.loadLlmSettings p true).1 = .ok c) : c = current :=
    Except.ok.inj (hc.symm.trans hload)
  constructor
  · intro hpromised
    constructor
    · rintro ⟨⟨c, s, hc, hvalid, hfine⟩, hnan⟩
      obtain rfl := hresult hc
      have hdurable := hpromised.durable s _ ((save_eq_ok_iff hcurrent).mpr ⟨hvalid, hfine, rfl⟩)
      rw [durable_iff hd (Validated.of_patched hvalid)] at hdurable
      exact hdurable (((follows_of_patched hd hsettled hvalid).nan_iff hsettled).mpr hnan)
    · rintro ⟨hrefused, hnan⟩
      obtain ⟨q, hq, hleft⟩ := hpromised.refused hrefused
      obtain ⟨c, hc, hnone⟩ := hrefused
      obtain rfl := hresult hc
      rw [save_eq hcurrent, hnone] at hq
      obtain ⟨-, rfl⟩ := Prod.mk.inj hq
      exact (hp.leftAlone_iff hd hcurrent).mp hleft hnan
  · rintro ⟨hsaved, hleft⟩
    refine ⟨?_, fun s q hq => ?_, fun s q c hq hc => ?_, ?_⟩
    · rintro ⟨c, hc, hnone⟩
      obtain rfl := hresult hc
      refine ⟨{ p with cached := some c }, by rw [save_eq hcurrent, hnone], ?_⟩
      exact (hp.leftAlone_iff hd hcurrent).mpr fun hnan => hleft ⟨⟨c, hc, hnone⟩, hnan⟩
    · obtain ⟨hvalid, hfine, rfl⟩ := (save_eq_ok_iff hcurrent).mp hq
      rw [durable_iff hd (Validated.of_patched hvalid), ne_eq,
        (follows_of_patched hd hsettled hvalid).nan_iff hsettled]
      exact fun hnan => hsaved ⟨⟨current, s, hload, hvalid, hfine⟩, hnan⟩
    · obtain rfl := hresult hc
      exact follows_of_patched hd hsettled ((save_eq_ok_iff hcurrent).mp hq).1
    · rw [save_eq hcurrent, save_eq hcurrent, modelValidate_known]

/-- **Step lemma**: a sound call caches no `nan`. -/
theorem cachesNan_step (hd : h.Documented) (hp : h.Inv p) (hnone : ¬ h.CachesNan p) {call : Call ν ω}
    (hC : h.Sound p call) (hq : h.system.step p call = some q) : ¬ h.CachesNan q := by
  obtain ⟨current, hcurrent, hsettled⟩ := hp.fresh hd
  have hfinite : ¬ h.CachesNan { p with cached := some current } := by
    rintro ⟨s, hs, hnan⟩
    obtain rfl := Option.some.inj hs
    exact hsettled.finite hnan
  cases call with
  | load force =>
      obtain rfl := Option.some.inj hq
      rw [load_eq hcurrent]
      split
      · exact hnone
      · exact hfinite
  | save patch =>
      obtain rfl := Option.some.inj hq
      rw [save_eq hcurrent]
      cases hvalid : h.modelValidate (patched current patch) with
      | none => exact hfinite
      | some s =>
          rintro ⟨s', hs', hnan⟩
          obtain rfl := Option.some.inj hs'
          exact hC patch rfl (((follows_of_patched hd hsettled hvalid).nan_iff hsettled).mp hnan)

/-- **Settings are durable** in every run that saves no temperature that is `nan`. In any other run a call does what is
promised of it unless it saves such a temperature, or is refused where one is cached. -/
theorem saveLlmSettings_durable_iff (hd : h.Documented) :
    (∀ p, h.system.Reach h.Sound p → ∀ patch, ¬ h.NanTemperature patch → h.Promised p patch) ∧
      ∀ p, h.system.Reachable p → ∀ patch, h.Promised p patch ↔
        ¬ (h.Accepted p patch ∧ h.NanTemperature patch) ∧ ¬ (h.Refused p patch ∧ h.CachesNan p) := by
  refine ⟨fun p hp patch hfinite => ?_, fun p hp patch => promised_iff hd (inv_of_reachable hd hp) patch⟩
  have hI : h.Inv p ∧ ¬ h.CachesNan p := by
    refine hp.invariant (I := fun p => h.Inv p ∧ ¬ h.CachesNan p) (fun q hq => ?_) fun q call r hI hC hr =>
      ⟨hI.1.step hd hr, cachesNan_step hd hI.1 hI.2 hC hr⟩
    refine ⟨inv_of_reachable hd (.init hq), ?_⟩
    rintro ⟨s, hs, -⟩
    rw [hq.2] at hs
    cases hs
  exact (promised_iff hd hI.1 patch).mpr ⟨fun h => hfinite h.2, fun h => hI.2 h.2⟩

/-! ## A host -/

open Json (Decimal)

/-- A number as a float. -/
def toFloat : Decimal → Decimal
  | .int n => .float (n < 0) n.natAbs (Json.tenths '0' rfl)
  | x => x

/-- What JSON has no number for. -/
def nullForNan : Json (Option Decimal) → Json (Option Decimal)
  | .number none => .null
  | v => v

/-- A host whose fields take what is of their type, and integers for floats. -/
def strict : Host (Option Decimal) Empty where
  lower s := String.ofList (s.toList.map Char.toLower)
  value
    | some x => .finite x.value
    | none => .nan
  literal q := if q = 7/10 then some (.float false 0 (Json.tenths '7' rfl)) else some (.int q.floor)
  str
    | .json (.str s) => some s
    | _ => none
  float
    | .json (.number x) => some (x.map toFloat)
    | _ => none
  int
    | .json (.number (some (.int n))) => some (some (.int n))
    | _ => none
  modelDumpJson s := Json.dumpsIndent (s.modelDump.map fun kv => (kv.1, nullForNan kv.2))

theorem jsonValue_strict (v : Json (Option Decimal)) : strict.jsonValue v = nullForNan v := by
  cases v with
  | number x => cases x <;> rfl
  | _ => rfl

theorem valid_jsonDump (s : LLMSettings (Option Decimal)) : (Json.obj (strict.jsonDump s)).Valid := by
  refine .obj ?_ fun f hf => ?_
  · rw [keys_jsonDump]
    exact nodup_fieldKeys
  · obtain ⟨kv, hkv, rfl⟩ := List.mem_map.mp hf
    have hnumber (x : Option Decimal) : (strict.jsonValue (.number x)).Valid := by
      cases x with
      | none => exact .null
      | some x => exact .number
    simp only [LLMSettings.modelDump, List.mem_cons, List.mem_map] at hkv
    rcases hkv with rfl | rfl | rfl | rfl | ⟨f, -, rfl⟩
    · exact .str
    · exact .str
    · exact hnumber _
    · exact hnumber _
    · exact .str

theorem documented_strict : strict.Documented where
  str_str s := rfl
  float_number v x h := by
    unfold strict at h ⊢
    dsimp only at h ⊢
    split at h
    · next y =>
        obtain rfl := Option.some.inj h
        cases y with
        | none => rfl
        | some y => cases y <;> rfl
    · cases h
  int_number v n h := by
    unfold strict at h ⊢
    dsimp only at h ⊢
    split at h
    · obtain rfl := Option.some.inj h
      rfl
    · cases h
  float_default := by
    have hliteral : strict.literal (7/10) = some (.float false 0 (Json.tenths '7' rfl)) := if_pos rfl
    rw [hliteral]
    rfl
  int_default := by decide +kernel
  int_finite v n h := by
    unfold strict at h ⊢
    dsimp only at h ⊢
    split at h
    · obtain rfl := Option.some.inj h
      exact fun hnan => by cases hnan
    · cases h
  default_finite := by decide +kernel
  loads_modelDumpJson s _ := by
    have hdump : strict.jsonDump s = s.modelDump.map fun kv => (kv.1, nullForNan kv.2) := by
      simp only [jsonDump, jsonValue_strict]
    rw [← Json.loads_dumpsIndent (valid_jsonDump s), hdump]
    rfl

/-- A process that starts without a file. -/
def start : Process (Option Decimal) := ⟨none, none, fun _ => none⟩

theorem start_init : strict.system.init start := ⟨rfl, rfl⟩

/-- A temperature that is `nan`. -/
def nanPatch : Patch (Option Decimal) Empty where
  entries := [("temperature", .json (.number none))]
  nodup := by decide +kernel

/-- **What the first call returns is not what is loaded**: it has no number for a temperature, and the next process reads
the default. -/
theorem saveLlmSettings_nan : strict.Documented ∧ strict.system.Reachable start ∧ ¬ strict.Promised start nanPatch ∧
    ((strict.saveLlmSettings start nanPatch).1.toOption.map (·.temperature)) = some none ∧
    ((strict.loadLlmSettings ⟨(strict.saveLlmSettings start nanPatch).2.file, none, start.environ⟩
      true).1.toOption.map (·.temperature)) = some (some (.float false 0 (Json.tenths '7' rfl))) := by
  have hsaved : ((strict.saveLlmSettings start nanPatch).1.toOption.map (·.temperature)) = some none := by
    decide +kernel
  have hloaded : ((strict.loadLlmSettings ⟨(strict.saveLlmSettings start nanPatch).2.file, none, start.environ⟩
      true).1.toOption.map (·.temperature)) = some (some (.float false 0 (Json.tenths '7' rfl))) := by
    decide +kernel
  refine ⟨documented_strict, .init start_init, fun hpromised => ?_, hsaved, hloaded⟩
  cases hres : (strict.saveLlmSettings start nanPatch).1 with
  | error e =>
      rw [hres] at hsaved
      cases hsaved
  | ok s =>
      have hdurable := hpromised.durable s _ (Prod.ext hres rfl)
      rw [hdurable.anew start.environ true] at hloaded
      rw [hres] at hsaved
      cases (Option.some.inj hsaved).symm.trans (Option.some.inj hloaded)

/-- A key, a temperature and something unknown. -/
def firstPatch : Patch (Option Decimal) Empty where
  entries := [("openai_api_key", .json (.str "sk-1")), ("temperature", .json (.number (some (.int 1)))),
    ("theme_api_key", .json .null)]
  nodup := by decide +kernel

/-- The first settings that are saved are there to stay, with the key and the temperature of the patch. -/
theorem saveLlmSettings_first : ∃ s, (strict.saveLlmSettings start firstPatch).1 = .ok s ∧
    s.text .openaiApiKey = "sk-1" ∧ strict.Durable (strict.saveLlmSettings start firstPatch).2 s := by
  have hfinite : ¬ strict.NanTemperature firstPatch := by
    rintro ⟨v, x, hv, hx, hnan⟩
    have hone : Py.getItem firstPatch.entries "temperature" = some (.json (.number (some (.int 1)))) := rfl
    obtain rfl := Option.some.inj (hone.symm.trans hv)
    obtain rfl := Option.some.inj hx
    cases hnan
  have hpromised := (saveLlmSettings_durable_iff documented_strict).1 start (.init start_init) firstPatch hfinite
  have hok : (strict.saveLlmSettings start firstPatch).1.isOk = true := by decide +kernel
  have hkey : (strict.saveLlmSettings start firstPatch).1.toOption.map (·.text .openaiApiKey) = some "sk-1" := by
    decide +kernel
  cases hres : (strict.saveLlmSettings start firstPatch).1 with
  | error e =>
      rw [hres] at hok
      cases hok
  | ok s =>
      rw [hres] at hkey
      exact ⟨s, rfl, Option.some.inj hkey, hpromised.durable s _ (Prod.ext hres rfl)⟩

end Host

end Persola.Integrations
