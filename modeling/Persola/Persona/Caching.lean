import Persola.Persona.Coherence
import Persola.Persona.Registry

/-!
# `Persona.Caching` — the cached getters, one request after another

`PersonaService` reads `system-prompt` and `sampling` through the cache. Here the requests run one at a time on
the whole table of personas: every call of `Persona.Cache` runs alone (`fetch_alone`, `invalidate_alone`). The
updating endpoints go through the service, which invalidates; `delete_persona` goes to the repository and does
not, so what was cached of a persona outlives it. The getters answer as without a cache throughout a run
exactly when no persona is deleted while a field of it is cached (`answers_as_uncached_iff`).
-/

namespace Persola.Persona

open Registry Runs Cache

namespace Cache

/-! ## Calls that run alone -/

/-- What a getter answers: the field, no such persona (404), or an internal error. -/
inductive Reply
  | found (fields : Entry)
  | notFound
  | error
deriving DecidableEq

/-- The answer computed from the row. -/
def uncached (a : Artifact) (row : Option PersonaModel) : Reply :=
  match row with
  | none => .notFound
  | some persona =>
      match persona.toProfile with
      | none => .error
      | some profile => .found (a.compute profile)

/-- `PersonaCache._set_fields`. -/
def Redis.setFields (r : Redis) (fields : Entry) : Redis :=
  r.setEntry r.getGeneration (((r.getEntry r.getGeneration).getD .empty).update fields)

/-- `PersonaCache.invalidate`. -/
def Redis.invalidate (r : Redis) : Redis :=
  (r.setGeneration (r.getGeneration + 1)).delete r.getGeneration (r.getGeneration + 1)

/-- `PersonaService.get_system_prompt` and `get_sampling_params`. -/
def fetch (a : Artifact) (row : Option PersonaModel) (r : Redis) : Reply × Redis :=
  match a.cached r.live with
  | some fields => (.found fields, r)
  | none =>
      match uncached a row with
      | .found fields => (.found fields, r.setFields fields)
      | reply => (reply, r)

/-- How a reading call ends. -/
def ReadStage.reply? : ReadStage → Option Reply
  | .returned (some fields) => some (.found fields)
  | .returned none => some .notFound
  | .raised => some .error
  | _ => none

/-- **A getter that runs alone** is the reader of `Persona.Cache`, step by step. -/
theorem fetch_alone (a : Artifact) (row : Option PersonaModel) (v : ℕ) (r : Redis) :
    ∃ n stage, system.exec ⟨row, v, r, [], []⟩ (.get a :: List.replicate n (.reader 0)) =
        some ⟨row, v, (fetch a row r).2, [⟨a, stage⟩], []⟩ ∧ stage.reply? = some (fetch a row r).1 := by
  unfold fetch
  cases hcached : a.cached r.live with
  | some fields =>
      have hentry : a.cached (r.getEntry r.getGeneration) = some fields := hcached
      refine ⟨2, .returned (some fields), ?_, rfl⟩
      simp [System.exec, system, step, Reader.step, List.replicate, hentry]
  | none =>
      have hentry : a.cached (r.getEntry r.getGeneration) = none := hcached
      cases row with
      | none =>
          refine ⟨3, .returned none, ?_, rfl⟩
          simp [System.exec, system, step, Reader.step, List.replicate, hentry, uncached]
      | some persona =>
          cases hprofile : persona.toProfile with
          | none =>
              refine ⟨3, .raised, ?_, by simp [ReadStage.reply?, uncached, hprofile]⟩
              simp [System.exec, system, step, Reader.step, List.replicate, hentry, uncached, hprofile]
          | some profile =>
              refine ⟨6, .returned (some (a.compute profile)), ?_,
                by simp [ReadStage.reply?, uncached, hprofile]⟩
              simp [System.exec, system, step, Reader.step, List.replicate, hentry, uncached, hprofile,
                Redis.setFields]

/-- **An update that runs alone** invalidates. -/
theorem invalidate_alone (data : PersonaModel → PersonaModel) (persona : PersonaModel) (v : ℕ)
    (r : Redis) :
    system.exec ⟨some persona, v, r, [], []⟩ (.update data :: List.replicate 5 (.writer 0)) =
      some ⟨some (data persona), v + 1, r.invalidate, [], [⟨data, .committed⟩]⟩ := by
  simp [System.exec, system, step, Writer.step, List.replicate, Redis.invalidate]

theorem live_setFields (r : Redis) (fields : Entry) :
    (r.setFields fields).live = some ((r.live.getD .empty).update fields) := Redis.live_setEntry_self

theorem live_invalidate (r : Redis) : r.invalidate.live = none := Redis.live_delete_self (.inr rfl)

theorem uncached_found {a : Artifact} {row : Option PersonaModel} {fields : Entry} :
    uncached a row = .found fields ↔ expected row a = some fields := by
  unfold uncached expected
  cases row with
  | none => simp
  | some persona => cases h : persona.toProfile <;> simp [h]

/-- **The cache is transparent exactly where it agrees with the row.** -/
theorem fetch_eq_uncached_iff (row : Option PersonaModel) (r : Redis) :
    (∀ a, (fetch a row r).1 = uncached a row) ↔ Agrees r.live row := by
  constructor
  · intro h a fields hcached
    have heq := h a
    rw [fetch, hcached] at heq
    exact uncached_found.mp heq.symm
  · intro h a
    unfold fetch
    cases hcached : a.cached r.live with
    | some fields => exact (uncached_found.mpr (h a fields hcached)).symm
    | none => cases uncached a row <;> rfl

/-- Without a row nothing is stored. -/
theorem fetch_none (a : Artifact) (r : Redis) : (fetch a none r).2 = r := by
  unfold fetch
  cases a.cached r.live with
  | some fields => rfl
  | none => rfl

/-- A getter keeps the agreement. -/
theorem agrees_fetch {row : Option PersonaModel} {r : Redis} (h : Agrees r.live row) (a : Artifact) :
    Agrees (fetch a row r).2.live row := by
  unfold fetch
  cases hcached : a.cached r.live with
  | some fields => exact h
  | none =>
      cases huncached : uncached a row with
      | found fields =>
          show Agrees (r.setFields fields).live row
          rw [live_setFields]
          exact h.update (uncached_found.mp huncached)
      | notFound => exact h
      | error => exact h

/-- Without a row, only an empty cache agrees. -/
theorem agrees_no_row {payload : Option Entry} :
    Agrees payload none ↔ ∀ a : Artifact, a.cached payload = none := by
  constructor
  · intro h a
    rw [Option.eq_none_iff_forall_ne_some]
    intro fields hcached
    have hexpected := h a fields hcached
    cases hexpected
  · intro h a fields hcached
    rw [h a] at hcached
    cases hcached

end Cache

/-! ## The API -/

/-- What a getter answers with the cache switched off. -/
def Registry.answer (r : Registry) (id : PersonaId) (a : Artifact) : Reply := uncached a (r.get id)

/-- The tables, and the keys of every persona. -/
structure Api where
  registry : Registry
  redis : PersonaId → Redis

/-- A request about personas. -/
inductive Request
  | edit (edit : Edit)
  | delete (id : PersonaId)
  | get (id : PersonaId) (a : Artifact)

/-- What a request leaves in the tables. -/
def Request.run (r : Registry) : Request → Registry
  | edit e => e.run r
  | delete id => (r.delete id).getD r
  | get _ _ => r

/-- The persona whose row the request flushes through `PersonaService.update`. -/
def Edit.flushed (r : Registry) : Edit → Option PersonaId
  | updatePersona id persona => (r.update id (updates persona)).map fun _ => id
  | applyPreset id preset => (r.update id (presetUpdates preset)).map fun _ => id
  | _ => none

namespace Api

/-- What a getter answers. -/
def answer (s : Api) (id : PersonaId) (a : Artifact) : Reply :=
  (fetch a (s.registry.get id) (s.redis id)).1

/-- What a request leaves in Redis. -/
def cached (s : Api) : Request → PersonaId → Redis
  | .edit e =>
      match e.flushed s.registry with
      | some id => Function.update s.redis id (s.redis id).invalidate
      | none => s.redis
  -- through the repository, not the service: nothing is invalidated
  | .delete _ => s.redis
  | .get id a => Function.update s.redis id (fetch a (s.registry.get id) (s.redis id)).2

/-- One request, from start to end. -/
def step (s : Api) (req : Request) : Api := ⟨req.run s.registry, s.cached req⟩

end Api

/-- The API with its cache, cold at first. -/
def cachedApi : System Api Request where
  init s := s.registry.Bounded ∧ ∀ id, s.redis id = ⟨none, fun _ => none⟩
  step s req := some (s.step req)

/-- The API with the cache switched off. -/
def plainApi : System Registry Request where
  init := Registry.Bounded
  step r req := some (req.run r)

/-! ## Steps -/

/-- **The getters answer as without the cache.** -/
def Api.Transparent (s : Api) : Prop := ∀ id a, s.answer id a = s.registry.answer id a

/-- The request deletes no persona of which a field is cached. -/
def forgets (s : Api) : Request → Prop
  | .delete id => ∀ a : Artifact, a.cached (s.redis id).live = none
  | _ => True

instance (s : Api) (req : Request) : Decidable (forgets s req) := by
  cases req with
  | edit e => exact .isTrue trivial
  | get id a => exact .isTrue trivial
  | delete id =>
      exact decidable_of_iff
        (Artifact.systemPrompt.cached (s.redis id).live = none ∧
          Artifact.sampling.cached (s.redis id).live = none)
        ⟨fun h a => by cases a <;> [exact h.1; exact h.2], fun h => ⟨h _, h _⟩⟩

section
variable {r : Registry} {s : Api} {id : PersonaId} {edit : Edit}

theorem transparent_iff : s.Transparent ↔ ∀ id, Agrees (s.redis id).live (s.registry.get id) :=
  forall_congr' fun _ => fetch_eq_uncached_iff _ _

/-- A request that succeeds has flushed its target. -/
theorem flushed_of_apply {t : Registry} (h : edit.apply r = some t) : edit.flushed r = edit.target := by
  cases edit with
  | updatePersona j profile =>
      have hupdate : r.updateWith j (updates profile) .manual = some t := h
      obtain ⟨updated, hsome, -⟩ := Option.bind_eq_some_iff.mp hupdate
      simp [Edit.flushed, Edit.target, hsome]
  | applyPreset j p =>
      have hupdate : r.updateWith j (presetUpdates p) .preset = some t := h
      obtain ⟨updated, hsome, -⟩ := Option.bind_eq_some_iff.mp hupdate
      simp [Edit.flushed, Edit.target, hsome]
  | createPersona profile => rfl
  | importPersona profile => rfl
  | clonePersona j name => rfl
  | blendPersonas req => rfl

/-- A request leaves the personas alone that it neither flushes nor creates. -/
theorem get_run (h : r.Bounded) (hid : id ≠ r.fresh) (hflushed : edit.flushed r ≠ some id) :
    (edit.run r).get id = r.get id := by
  unfold Edit.run
  cases happly : edit.apply r with
  | none => rfl
  | some t =>
      rw [flushed_of_apply happly] at hflushed
      exact get_of_edited h (edited_of_apply happly) hid hflushed

/-- What every run keeps: ids below the next one, and nothing cached above. -/
structure Api.Inv (s : Api) : Prop where
  bounded : s.registry.Bounded
  cold : ∀ id, s.registry.fresh ≤ id → (s.redis id).live = none

/-- What an edit leaves cached of a persona. -/
theorem live_cached_edit (edit : Edit) (id : PersonaId) :
    (s.cached (.edit edit) id).live =
      if edit.flushed s.registry = some id then none else (s.redis id).live := by
  cases hflushed : edit.flushed s.registry with
  | none => simp [Api.cached, hflushed]
  | some j =>
      by_cases hid : j = id
      · subst hid
        simp [Api.cached, hflushed, live_invalidate]
      · simp [Api.cached, hflushed, Function.update_of_ne (Ne.symm hid), hid]

theorem Api.Inv.step (h : s.Inv) (req : Request) : (s.step req).Inv := by
  cases req with
  | edit e =>
      refine ⟨run_bounded h.bounded e, fun id hid => ?_⟩
      have hlive := live_cached_edit (s := s) e id
      rw [show (s.step (.edit e)).redis id = s.cached (.edit e) id from rfl, hlive]
      split
      · rfl
      · exact h.cold id ((fresh_le_run e).trans hid)
  | delete id =>
      obtain ⟨hbounded, hfresh⟩ := deleted_bounded h.bounded id
      refine ⟨hbounded, fun j hj => h.cold j ?_⟩
      rw [← hfresh]
      exact hj
  | get id a =>
      refine ⟨h.bounded, fun j hj => ?_⟩
      show (Function.update s.redis id _ j).live = none
      by_cases hid : j = id
      · subst hid
        -- an id that is not in use is not found, and nothing is stored
        have hnone : s.registry.get j = none := get_eq_none_of_bounded h.bounded hj
        rw [Function.update_self, hnone, fetch_none]
        exact h.cold j hj
      · rw [Function.update_of_ne hid]
        exact h.cold j hj

/-- **Step lemma**: from a state in which the getters answer as without the cache, they still do after a
request exactly when it deletes nothing that is cached. -/
theorem transparent_step_iff (h : s.Inv) (hs : s.Transparent) (req : Request) :
    (s.step req).Transparent ↔ forgets s req := by
  rw [transparent_iff] at hs ⊢
  cases req with
  | edit e =>
      refine iff_of_true (fun id => ?_) trivial
      show Agrees (s.cached (.edit e) id).live ((e.run s.registry).get id)
      rw [live_cached_edit]
      split
      · exact agrees_none _
      · next hflushed =>
          by_cases hid : id = s.registry.fresh
          · rw [h.cold id hid.ge]
            exact agrees_none _
          · rw [get_run h.bounded hid hflushed]
            exact hs id
  | delete id =>
      have hget : ∀ j, (s.step (.delete id)).registry.get j =
          if j = id then none else s.registry.get j := fun j => get_deleted id
      constructor
      · intro hall
        have hid := hall id
        rw [hget, if_pos rfl] at hid
        exact agrees_no_row.mp hid
      · intro hempty j
        rw [hget]
        split
        · next hj =>
            subst hj
            exact agrees_no_row.mpr hempty
        · exact hs j
  | get id a =>
      refine iff_of_true (fun j => ?_) trivial
      show Agrees (Function.update s.redis id _ j).live (s.registry.get j)
      by_cases hj : j = id
      · rw [hj, Function.update_self]
        exact agrees_fetch (hs id) a
      · rw [Function.update_of_ne hj]
        exact hs j

end

/-! ## Runs -/

/-- The tables go through the same states with and without the cache. -/
theorem exec_registry {reqs : List Request} :
    ∀ {s t : Api}, cachedApi.exec s reqs = some t → plainApi.exec s.registry reqs = some t.registry := by
  induction reqs with
  | nil =>
      intro s t h
      obtain rfl := Option.some.inj h
      rfl
  | cons req reqs ih =>
      intro s t h
      exact ih (s := s.step req) h

/-- **The getters answer as without a cache, after every request of a run, exactly when no request of it
deletes a persona of which a field is cached.** -/
theorem answers_as_uncached_iff {s₀ s : Api} {reqs : List Request} (h₀ : cachedApi.init s₀)
    (h : cachedApi.exec s₀ reqs = some s) :
    (∀ pre post t, reqs = pre ++ post → cachedApi.exec s₀ pre = some t →
        ∃ r, plainApi.exec s₀.registry pre = some r ∧ ∀ id a, t.answer id a = r.answer id a) ↔
      cachedApi.Meets forgets s₀ reqs := by
  have hcold : ∀ id, (s₀.redis id).live = none := fun id => by rw [h₀.2 id]; rfl
  have hinv : s₀.Inv := ⟨h₀.1, fun id _ => hcold id⟩
  have hstart : s₀.Transparent := transparent_iff.mpr fun id => by
    rw [hcold id]
    exact agrees_none _
  have hrule : cachedApi.Throughout Api.Transparent s₀ reqs ↔ cachedApi.Meets forgets s₀ reqs := by
    refine System.throughout_iff (I := Api.Inv) (fun u req v hu hP hstep => ?_) hinv hstart h
    obtain rfl := Option.some.inj hstep
    exact ⟨hu.step req, transparent_step_iff hu hP req⟩
  rw [← hrule]
  constructor
  · intro hall pre post t hreqs ht
    obtain ⟨r, hr, hanswers⟩ := hall pre post t hreqs ht
    obtain rfl := Option.some.inj ((exec_registry ht).symm.trans hr)
    exact hanswers
  · intro hall pre post t hreqs ht
    exact ⟨t.registry, exec_registry ht, hall pre post t hreqs ht⟩

/-- No persona yet, and nothing cached. -/
def coldApi : Api := ⟨⟨[], [], 0⟩, fun _ => ⟨none, fun _ => none⟩⟩

theorem init_coldApi : cachedApi.init coldApi :=
  ⟨fun _ hp => absurd hp List.not_mem_nil, fun _ => rfl⟩

/-- A persona whose cached prompt an update invalidates before it is deleted. -/
def updatedThenDeleted : List Request :=
  [.edit (.createPersona (defaultPresets .creative)), .get 0 .systemPrompt,
   .edit (.updatePersona 0 (defaultPresets .technical)), .delete 0, .get 0 .systemPrompt]

/-- The requests succeed, and every answer along the way is the one without a cache. -/
theorem answers_updatedThenDeleted : (cachedApi.exec coldApi updatedThenDeleted).isSome ∧
    ∀ pre post t, updatedThenDeleted = pre ++ post → cachedApi.exec coldApi pre = some t →
      ∃ r, plainApi.exec coldApi.registry pre = some r ∧ ∀ id a, t.answer id a = r.answer id a := by
  have hsome : (cachedApi.exec coldApi updatedThenDeleted).isSome = true := by decide +kernel
  obtain ⟨s, hrun⟩ := Option.isSome_iff_exists.mp hsome
  exact ⟨hsome, (answers_as_uncached_iff init_coldApi hrun).mpr (by decide +kernel)⟩

/-- **A persona deleted after its sampling was read**: the cached sampling is still answered. -/
theorem answer_outlives_persona : ¬ ∀ s₀ reqs t r, cachedApi.init s₀ →
    cachedApi.exec s₀ reqs = some t → plainApi.exec s₀.registry reqs = some r →
      ∀ id a, t.answer id a = r.answer id a := by
  intro hall
  have hex : ((cachedApi.exec coldApi
      [.edit (.createPersona (defaultPresets .creative)), .get 0 .sampling, .delete 0]).any fun s =>
        s.answer 0 .sampling ≠ s.registry.answer 0 .sampling) = true := by
    decide +kernel
  obtain ⟨s, hrun, hne⟩ := System.exists_of_exec hex
  exact of_decide_eq_true hne (hall _ _ s s.registry init_coldApi hrun (exec_registry hrun) 0 .sampling)

end Persola.Persona
