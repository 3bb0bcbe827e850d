import Persola.Lib.Uuid
import Persola.Chat.Voice

/-!
# `Chat.Configs` — configurations of agents, stored and read back

A request and a reply have the id of a persona as a text, the row has the identifier, and the row's other columns may
be null. `to_config` fills in defaults with `or`, which takes a temperature of zero and an empty model for missing
ones, and `UUID` takes texts that `str` does not write. So a configuration survives its row only without these
(`agents_round_trip_iff`), and what is put back after a read stays what it was only if none of the row's fields is
filled in and the prompt is the persona's.
-/

namespace Persola.Agent

open Persona

/-- `AgentConfig` with all its fields, as a request or a reply has it. -/
structure AgentBody where
  agentId : String
  name : String := "Persola Agent"
  role : String := "assistant"
  model : String := "llama3:8b"
  temperature : ℚ := 7/10
  maxTokens : ℤ := 2000
  systemPrompt : String := ""
  personaId : Option String := none
  tools : List String := []
  memoryEnabled : Bool := true
  sessionId : Option String := none
deriving DecidableEq, Repr

/-- What the fields of `AgentConfig` are checked for. -/
def AgentBody.Valid (c : AgentBody) : Prop := c.name.length ≤ 200

instance (c : AgentBody) : Decidable c.Valid := inferInstanceAs (Decidable (_ ≤ _))

/-- `PyUUID(persona_id) if persona_id else None`; the outer `none` is the `ValueError`. -/
def personaIdOf : Option String → Option (Option PersonaId)
  | none => some none
  | some text => if text = "" then some none else (Uuid.parse text).map some

/-- The configuration as rows are made of it. -/
def AgentBody.config (c : AgentBody) : Option AgentConfig :=
  (personaIdOf c.personaId).map fun personaId =>
    { name := c.name, role := c.role, model := c.model, temperature := c.temperature, maxTokens := c.maxTokens,
      systemPrompt := c.systemPrompt, personaId, tools := c.tools, memoryEnabled := c.memoryEnabled }

/-- `AgentModel.from_config`. -/
def AgentModel.fromBody (id : AgentId) (c : AgentBody) : Option AgentModel := c.config.map (.fromConfig id)

/-- `a or b` on an optional number. -/
def numberOr {α : Type*} [Zero α] [DecidableEq α] (a : Option α) (b : α) : α :=
  if a.getD 0 = 0 then b else a.getD 0

/-- What `to_config` passes to the constructor. -/
def AgentModel.body (a : AgentModel) : AgentBody where
  agentId := Uuid.text a.id
  name := a.name
  role := a.role
  model := Py.orElse a.model "llama3:8b"
  temperature := numberOr a.temperature (7/10)
  maxTokens := numberOr a.maxTokens 2000
  systemPrompt := Py.orElse a.systemPrompt ""
  personaId := a.personaId.map Uuid.text
  tools := a.tools
  memoryEnabled := a.memoryEnabled
  sessionId := none

/-- `AgentModel.to_config`; `none` is the `ValidationError` of the constructor. -/
def AgentModel.toConfig (a : AgentModel) : Option AgentBody := if a.body.Valid then some a.body else none

/-! ## Stored and read back -/

/-- The configuration that is read back has all fields of the one that was stored but the ids of agent and session. -/
def RoundTrips (c : AgentBody) : Prop :=
  ∀ id, ∃ a c', AgentModel.fromBody id c = some a ∧ a.toConfig = some c' ∧
    { c' with agentId := c.agentId, sessionId := c.sessionId } = c

/-- What the table admits of a configuration. -/
structure AgentBody.InRange (c : AgentBody) : Prop where
  temperature : 0 ≤ c.temperature ∧ c.temperature ≤ 2
  maxTokens : 1 ≤ c.maxTokens ∧ c.maxTokens ≤ 32000

/-- No field is falsy where that counts, and the persona's id is written as identifiers are. -/
structure AgentBody.Plain (c : AgentBody) : Prop where
  temperature : c.temperature ≠ 0
  model : c.model ≠ ""
  personaId : ∀ text ∈ c.personaId, ∃ n, text = Uuid.text n

section
variable {c : AgentBody} {α : Type*} [Zero α] [DecidableEq α]

/-- A number stands for itself exactly if it is not zero. -/
theorem numberOr_eq_iff {x b : α} (hb : b ≠ 0) : numberOr (some x) b = x ↔ x ≠ 0 := by
  unfold numberOr
  rw [Option.getD_some]
  by_cases hx : x = 0
  · rw [if_pos hx]
    exact iff_of_false (fun h => hb (h.trans hx)) (not_not.mpr hx)
  · rw [if_neg hx]
    exact iff_of_true rfl hx

theorem text_ne_empty (n : ℕ) : Uuid.text n ≠ "" := by
  intro h
  have hsignificant := congrArg List.length (Uuid.significant_text n)
  rw [h, Uuid.length_hexDigits] at hsignificant
  exact absurd hsignificant (by decide)

/-- A persona's id survives the column exactly if it is written as identifiers are. -/
theorem personaIdOf_text_iff {text : Option String} :
    (∃ id, personaIdOf text = some id ∧ id.map Uuid.text = text) ↔ ∀ t ∈ text, ∃ n, t = Uuid.text n := by
  cases text with
  | none => exact iff_of_true ⟨none, rfl, rfl⟩ fun t ht => by cases ht
  | some text =>
      have hone : (∀ t ∈ some text, ∃ n, t = Uuid.text n) ↔ ∃ n, text = Uuid.text n :=
        ⟨fun h => h text rfl, fun h t ht => Option.some.inj ht ▸ h⟩
      rw [hone, ← Uuid.text_parse_iff, personaIdOf]
      by_cases hempty : text = ""
      · rw [if_pos hempty]
        refine iff_of_false ?_ ?_
        · rintro ⟨id, hid, hback⟩
          rw [← Option.some.inj hid] at hback
          cases hback
        · rintro ⟨n, -, hback⟩
          exact text_ne_empty n (hback.trans hempty)
      · rw [if_neg hempty]
        constructor
        · rintro ⟨id, hid, hback⟩
          obtain ⟨n, hn, rfl⟩ := Option.map_eq_some_iff.mp hid
          exact ⟨n, hn, Option.some.inj hback⟩
        · rintro ⟨n, hn, hback⟩
          exact ⟨some n, by rw [hn]; rfl, congrArg some hback⟩

theorem toConfig_eq {a : AgentModel} (h : a.name.length ≤ 200) : a.toConfig = some a.body := if_pos h

/-- What is read back of a stored configuration. -/
theorem read_back (hvalid : c.Valid) (hrange : c.InRange) {personaId : Option PersonaId}
    (hid : personaIdOf c.personaId = some personaId) (id : AgentId) :
    ∃ a, AgentModel.fromBody id c = some a ∧ a.toConfig = some
      { c with
        agentId := Uuid.text id, sessionId := none, personaId := personaId.map Uuid.text
        model := Py.orElse (some c.model) "llama3:8b", temperature := numberOr (some c.temperature) (7/10) } := by
  have htokens : numberOr (some c.maxTokens) 2000 = c.maxTokens := by
    have hpos := hrange.maxTokens.1
    exact (numberOr_eq_iff (by decide)).mpr (by omega)
  let config : AgentConfig :=
    { name := c.name, role := c.role, model := c.model, temperature := c.temperature, maxTokens := c.maxTokens,
      systemPrompt := c.systemPrompt, personaId, tools := c.tools, memoryEnabled := c.memoryEnabled }
  have hstored : AgentModel.fromBody id c = some (.fromConfig id config) := by
    unfold AgentModel.fromBody AgentBody.config
    rw [hid]
    rfl
  have hread : (AgentModel.fromConfig id config).toConfig = some (AgentModel.fromConfig id config).body :=
    toConfig_eq hvalid
  refine ⟨_, hstored, hread.trans ?_⟩
  dsimp only [AgentModel.body, AgentModel.fromConfig, config]
  rw [htokens, Py.orElse_some_empty]

/-- **A configuration survives its row** exactly if it is plain. -/
theorem roundTrips_iff (hvalid : c.Valid) (hrange : c.InRange) : RoundTrips c ↔ c.Plain := by
  constructor
  · intro htrips
    obtain ⟨a, c', hstored, hread, hsame⟩ := htrips 0
    obtain ⟨config, hconfig, -⟩ := Option.map_eq_some_iff.mp hstored
    obtain ⟨personaId, hid, -⟩ := Option.map_eq_some_iff.mp hconfig
    obtain ⟨a', hstored', hread'⟩ := read_back hvalid hrange hid 0
    obtain rfl := Option.some.inj (hstored.symm.trans hstored')
    obtain rfl := Option.some.inj (hread.symm.trans hread')
    refine ⟨?_, ?_, personaIdOf_text_iff.mp ⟨personaId, hid, congrArg AgentBody.personaId hsame⟩⟩
    · exact (numberOr_eq_iff (by norm_num)).mp (congrArg AgentBody.temperature hsame)
    · exact (Py.orElse_some_eq_iff (by decide)).mp (congrArg AgentBody.model hsame)
  · intro hplain id
    obtain ⟨personaId, hid, htext⟩ := personaIdOf_text_iff.mpr hplain.personaId
    obtain ⟨a, hstored, hread⟩ := read_back hvalid hrange hid id
    refine ⟨a, _, hstored, hread, ?_⟩
    rw [htext, (numberOr_eq_iff (by norm_num)).mpr hplain.temperature, (Py.orElse_some_eq_iff (by decide)).mpr hplain.model]

end

end Persola.Agent

namespace Persola.Chat

open Agent Persona

/-! ## Read and put back -/

/-- `update_agent` on the body of the request. -/
def putAgent (st : Store) (id : AgentId) (c : AgentBody) : Option Store := do
  let config ← c.config
  updateAgent st id config

/-- `get_agent`, and its answer given to `update_agent`; `none` is an error response of one of them. -/
def putBack (st : Store) (id : AgentId) : Option Store := do
  let a ← st.getAgent id
  let c ← a.toConfig
  putAgent st id c

/-- The same agents, and nothing else changed. -/
def Store.Same (st t : Store) : Prop := (∀ id, t.getAgent id = st.getAgent id) ∧ t = { st with agents := t.agents }

/-- What the columns of `agents` admit of a row, the foreign key included. -/
structure Store.Fits (st : Store) (a : AgentModel) : Prop where
  role : a.role = "assistant"
  model : ∀ m ∈ a.model, m.length ≤ 100
  temperature : ∀ t ∈ a.temperature, 0 ≤ t ∧ t ≤ 2
  maxTokens : ∀ n ∈ a.maxTokens, 1 ≤ n ∧ n ≤ 32000
  personaId : ∀ id ∈ a.personaId, id < 16 ^ 32 ∧ (st.getPersona id).isSome

/-- The row can be read, and what is read is accepted again. -/
structure Store.Accepts (st : Store) (a : AgentModel) : Prop where
  name : a.name.length ≤ 200
  tools : a.tools.Nodup ∧ ∀ tool ∈ a.tools, tool.length ≤ 100
  persona : ∀ persona, a.personaId.bind st.getPersona = some persona → persona.builtPrompt.isSome

/-- No column is filled in, and the prompt is the one of the persona, if there is one. -/
structure Store.Settled (st : Store) (a : AgentModel) : Prop where
  model : a.model ≠ none ∧ a.model ≠ some ""
  temperature : a.temperature ≠ none ∧ a.temperature ≠ some 0
  maxTokens : a.maxTokens ≠ none
  prompt : match a.personaId.bind st.getPersona with
    | some persona => a.systemPrompt = persona.builtPrompt
    | none => a.systemPrompt ≠ none

section
variable {st : Store} {a : AgentModel}

/-- The configuration that is put back. -/
def rereadConfig (a : AgentModel) : AgentConfig where
  name := a.name
  role := a.role
  model := Py.orElse a.model "llama3:8b"
  temperature := numberOr a.temperature (7/10)
  maxTokens := numberOr a.maxTokens 2000
  systemPrompt := Py.orElse a.systemPrompt ""
  personaId := a.personaId
  tools := a.tools
  memoryEnabled := a.memoryEnabled

/-- The persona's identifier is read back from its text. -/
theorem personaIdOf_text {id : Option PersonaId} (h : ∀ n ∈ id, n < 16 ^ 32) :
    personaIdOf (id.map Uuid.text) = some id := by
  cases id with
  | none => rfl
  | some n =>
      show (if Uuid.text n = "" then some none else (Uuid.parse (Uuid.text n)).map some) = some (some n)
      rw [if_neg (text_ne_empty n), Uuid.parse_text, Nat.mod_eq_of_lt (h n rfl)]
      rfl

/-- What reading a row and putting it back comes to. -/
theorem putBack_eq (hagent : st.getAgent a.id = some a) (hfits : st.Fits a) (hname : a.name.length ≤ 200) :
    putBack st a.id = updateAgent st a.id (rereadConfig a) := by
  have hconfig : a.body.config = some (rereadConfig a) := by
    unfold AgentBody.config
    have hpersona : personaIdOf a.body.personaId = some a.personaId :=
      personaIdOf_text fun n hn => (hfits.personaId n hn).1
    rw [hpersona]
    rfl
  unfold putBack putAgent
  rw [hagent, Option.bind_eq_bind, Option.bind_some, toConfig_eq hname, Option.bind_eq_bind, Option.bind_some, hconfig]
  rfl

/-- A row that fits its columns gives a configuration that they admit. -/
theorem storable_rereadConfig (hfits : st.Fits a) : (rereadConfig a).Storable ↔
    a.name.length ≤ 200 ∧ a.tools.Nodup ∧ ∀ tool ∈ a.tools, tool.length ≤ 100 := by
  have hmodel : (Py.orElse a.model "llama3:8b").length ≤ 100 := by
    have hdefault : "llama3:8b".length ≤ 100 := by decide
    cases hm : a.model with
    | none => exact hdefault
    | some m =>
        unfold Py.orElse
        dsimp only
        split
        · exact hdefault
        · exact hfits.model m hm
  have htemperature : 0 ≤ numberOr a.temperature (7/10) ∧ numberOr a.temperature (7/10) ≤ 2 := by
    unfold numberOr
    split
    · norm_num
    · next hne =>
        cases ht : a.temperature with
        | none => exact absurd (by rw [ht]; rfl) hne
        | some t => exact hfits.temperature t ht
  have htokens : 1 ≤ numberOr a.maxTokens 2000 ∧ numberOr a.maxTokens 2000 ≤ 32000 := by
    unfold numberOr
    split
    · norm_num
    · next hne =>
        cases hn : a.maxTokens with
        | none => exact absurd (by rw [hn]; rfl) hne
        | some n => exact hfits.maxTokens n hn
  constructor
  · rintro ⟨hname, -, -, -, -, htools⟩
    exact ⟨hname, htools⟩
  · rintro ⟨hname, htools⟩
    exact ⟨hname, hfits.role, hmodel, htemperature, htokens, htools⟩

/-- The prompt that is put back. -/
theorem configPrompt_rereadConfig : st.configPrompt (rereadConfig a) =
    match a.personaId.bind st.getPersona with
    | some persona => persona.builtPrompt
    | none => some (Py.orElse a.systemPrompt "") := rfl

/-- **What is read is put back** exactly if it is accepted. -/
theorem putBack_eq_some_iff (hagent : st.getAgent a.id = some a) (hfits : st.Fits a) {t : Store} :
    putBack st a.id = some t ↔ st.Accepts a ∧ ∃ prompt, st.configPrompt (rereadConfig a) = some prompt ∧
      t = { st with agents := st.agents.map fun x =>
        if x.id = a.id then agentUpdates (rereadConfig a) prompt x else x } := by
  by_cases hname : a.name.length ≤ 200
  · rw [putBack_eq hagent hfits hname, updateAgent, hagent]
    have hrefers : st.Refers (rereadConfig a) := fun id hid => (hfits.personaId id hid).2
    rw [Option.bind_eq_bind, Option.bind_some, Option.bind_eq_bind]
    cases hprompt : st.configPrompt (rereadConfig a) with
    | none =>
        refine iff_of_false (fun h => by cases h) ?_
        rintro ⟨-, prompt, hsome, -⟩
        cases hsome
    | some prompt =>
        have hpersona : ∀ persona, a.personaId.bind st.getPersona = some persona → persona.builtPrompt.isSome := by
          intro persona hbind
          rw [configPrompt_rereadConfig, hbind] at hprompt
          exact Option.isSome_iff_exists.mpr ⟨prompt, hprompt⟩
        rw [Option.bind_some, Option.ite_none_right_eq_some, storable_rereadConfig hfits]
        constructor
        · rintro ⟨⟨⟨-, htools⟩, -⟩, hstore⟩
          exact ⟨⟨hname, htools, hpersona⟩, prompt, rfl, (Option.some.inj hstore).symm⟩
        · rintro ⟨haccepts, prompt', hsame, rfl⟩
          obtain rfl := Option.some.inj hsame
          exact ⟨⟨⟨hname, haccepts.tools⟩, hrefers⟩, rfl⟩
  · have hread : a.toConfig = none := if_neg hname
    refine iff_of_false (fun h => ?_) fun h => hname h.1.name
    rw [putBack, hagent, Option.bind_eq_bind, Option.bind_some, hread] at h
    cases h

/-- A column is not filled in. -/
theorem some_orElse_iff {m : Option String} {b : String} (hb : b ≠ "") :
    some (Py.orElse m b) = m ↔ m ≠ none ∧ m ≠ some "" := by
  cases m with
  | none => simp
  | some s =>
      rw [Option.some_inj, Py.orElse_some_eq_iff hb]
      simp

theorem some_numberOr_iff {α : Type*} [Zero α] [DecidableEq α] {x : Option α} {b : α} (hb : b ≠ 0) :
    some (numberOr x b) = x ↔ x ≠ none ∧ x ≠ some 0 := by
  cases x with
  | none => simp
  | some x =>
      rw [Option.some_inj, numberOr_eq_iff hb]
      simp

/-- Writing a row over itself changes nothing exactly if it is settled. -/
theorem agentUpdates_eq_self_iff (hfits : st.Fits a) {prompt : String}
    (hprompt : st.configPrompt (rereadConfig a) = some prompt) :
    agentUpdates (rereadConfig a) prompt a = a ↔ st.Settled a := by
  have hcolumns : agentUpdates (rereadConfig a) prompt a = a ↔
      some (Py.orElse a.model "llama3:8b") = a.model ∧ some (numberOr a.temperature (7/10)) = a.temperature ∧
        some (numberOr a.maxTokens 2000) = a.maxTokens ∧ some prompt = a.systemPrompt := by
    constructor
    · intro h
      exact ⟨congrArg AgentModel.model h, congrArg AgentModel.temperature h, congrArg AgentModel.maxTokens h,
        congrArg AgentModel.systemPrompt h⟩
    · rintro ⟨hmodel, htemperature, htokens, hsystem⟩
      unfold agentUpdates rereadConfig
      dsimp only
      rw [hmodel, htemperature, htokens, hsystem]
  have htokens : a.maxTokens ≠ some 0 := fun h => by
    have hpos := (hfits.maxTokens 0 h).1
    omega
  have hpersona : some prompt = a.systemPrompt ↔ match a.personaId.bind st.getPersona with
      | some persona => a.systemPrompt = persona.builtPrompt
      | none => a.systemPrompt ≠ none := by
    rw [configPrompt_rereadConfig] at hprompt
    cases hbind : a.personaId.bind st.getPersona with
    | some persona =>
        rw [hbind] at hprompt
        dsimp only at hprompt ⊢
        rw [hprompt, eq_comm]
    | none =>
        rw [hbind] at hprompt
        dsimp only at hprompt ⊢
        rw [← hprompt]
        cases a.systemPrompt with
        | none => simp
        | some own => simp [Py.orElse_some_empty]
  rw [hcolumns, some_orElse_iff (by decide), some_numberOr_iff (by norm_num), some_numberOr_iff (by decide), hpersona]
  constructor
  · rintro ⟨hmodel, htemperature, hmax, hsystem⟩
    exact ⟨hmodel, htemperature, hmax.1, hsystem⟩
  · rintro ⟨hmodel, htemperature, hmax, hsystem⟩
    exact ⟨hmodel, htemperature, ⟨hmax, htokens⟩, hsystem⟩

/-- **What is put back changes nothing** exactly if it is turned away or the row is settled. -/
theorem putBack_same_iff (hagent : st.getAgent a.id = some a) (hfits : st.Fits a) :
    (∀ t, putBack st a.id = some t → st.Same t) ↔ (st.Accepts a → st.Settled a) := by
  -- the row that is found afterwards
  have hfind (prompt : String) (id : AgentId) : (st.agents.map fun x =>
      if x.id = a.id then agentUpdates (rereadConfig a) prompt x else x).find? (·.id = id) =
        (st.getAgent id).map fun x => if id = a.id then agentUpdates (rereadConfig a) prompt x else x :=
    @Table.find?_modify _ _ AgentModel.id _ _ _ _ _ fun _ => rfl
  constructor
  · intro hsame haccepts
    obtain ⟨prompt, hprompt⟩ : ∃ prompt, st.configPrompt (rereadConfig a) = some prompt := by
      rw [configPrompt_rereadConfig]
      cases hbind : a.personaId.bind st.getPersona with
      | none => exact ⟨_, rfl⟩
      | some persona => exact Option.isSome_iff_exists.mp (haccepts.persona persona hbind)
    have hback := (hsame _ ((putBack_eq_some_iff hagent hfits).mpr ⟨haccepts, prompt, hprompt, rfl⟩)).1 a.id
    rw [hagent] at hback
    have hrow := (hfind prompt a.id).symm.trans hback
    rw [hagent, Option.map_some, if_pos rfl] at hrow
    exact (agentUpdates_eq_self_iff hfits hprompt).mp (Option.some.inj hrow)
  · intro hsettled t ht
    obtain ⟨haccepts, prompt, hprompt, rfl⟩ := (putBack_eq_some_iff hagent hfits).mp ht
    refine ⟨fun id => (hfind prompt id).trans ?_, rfl⟩
    by_cases hid : id = a.id
    · rw [hid, hagent, Option.map_some, if_pos rfl]
      exact congrArg some ((agentUpdates_eq_self_iff hfits hprompt).mpr (hsettled haccepts))
    · simp only [if_neg hid]
      exact Option.map_id'

/-- **Configurations survive their rows exactly if they are plain, and reading a row and putting it back changes
nothing exactly if it is turned away or the row is settled.** -/
theorem agents_round_trip_iff {c : AgentBody} (hvalid : c.Valid) (hrange : c.InRange)
    (hagent : st.getAgent a.id = some a) (hfits : st.Fits a) : (RoundTrips c ↔ c.Plain) ∧
    ((∀ t, putBack st a.id = some t → st.Same t) ↔ (st.Accepts a → st.Settled a)) :=
  ⟨roundTrips_iff hvalid hrange, putBack_same_iff hagent hfits⟩

end

/-! ## A default and a cold agent -/

/-- The default configuration. -/
def defaultBody : AgentBody where
  agentId := "agent_1"

/-- A row with nothing missing. -/
def fullAgent : AgentModel where
  id := 1
  name := "Ada"
  model := some "llama3:8b"
  temperature := some (7/10)
  maxTokens := some 2000
  systemPrompt := some "You are Ada."
  personaId := none

theorem round_trip_default : RoundTrips defaultBody ∧
    ∀ t, putBack ⟨[fullAgent], [], [], [], [], 0, 2⟩ 1 = some t → Store.Same ⟨[fullAgent], [], [], [], [], 0, 2⟩ t := by
  have hfits : Store.Fits ⟨[fullAgent], [], [], [], [], 0, 2⟩ fullAgent := by
    refine ⟨rfl, fun m hm => ?_, fun t ht => ?_, fun n hn => ?_, fun id hid => by cases hid⟩
    · rw [← Option.some.inj hm]
      decide
    · rw [← Option.some.inj ht]
      norm_num
    · rw [← Option.some.inj hn]
      norm_num
  have hboth := agents_round_trip_iff (c := defaultBody) (a := fullAgent) (by decide)
    ⟨⟨by norm_num [defaultBody], by norm_num [defaultBody]⟩, by decide, by decide⟩ rfl hfits
  refine ⟨hboth.1.mpr ⟨by norm_num [defaultBody], by decide, fun text h => by cases h⟩, hboth.2.mpr fun _ => ?_⟩
  refine ⟨by decide, ⟨by decide, ?_⟩, by decide, ?_⟩
  · norm_num [fullAgent]
  · show some _ ≠ none
    simp

/-- **A temperature of zero** is read back as the default. -/
theorem cold_agent_warms : ¬ ∀ c : AgentBody, c.Valid → c.InRange → RoundTrips c := by
  intro hall
  have hrange : ({ defaultBody with temperature := 0 } : AgentBody).InRange :=
    ⟨⟨le_rfl, by norm_num⟩, by decide, by decide⟩
  obtain ⟨a, c', hstored, hread, hsame⟩ := hall { defaultBody with temperature := 0 } (by decide) hrange 1
  obtain rfl := Option.some.inj hstored
  obtain rfl := Option.some.inj hread
  have htemperature : (7/10 : ℚ) = 0 := congrArg AgentBody.temperature hsame
  norm_num at htemperature

end Persola.Chat
