import Persola.Lib.Pool
import Persola.Persona.Cache

/-!
# `Persona.Coherence` — when the cache agrees with the committed row

Every generation an update moves to is also deleted by it, so right after its `DEL` there is no entry to
serve, and an entry stored meanwhile is *doomed*. What remains dangerous is a reader that stores an entry
after that, while the update has not committed, or with data read before a commit: `SafeStore` rules out
exactly these stores, and under it the cache agrees with the row whenever no update is in flight.
-/

namespace Persola.Persona.Cache

open Runs

/-! ## What an entry should hold -/

/-- The engine's fields computed from the committed row. -/
def expected (row : Option PersonaModel) (a : Artifact) : Option Entry :=
  (row.bind PersonaModel.toProfile).map a.compute

/-- Whatever is served from this payload is what the engine computes from the row. -/
def Agrees (payload : Option Entry) (row : Option PersonaModel) : Prop :=
  ∀ a value, a.cached payload = some value → expected row a = some value

/-- What the cache would serve is absent or what the engine computes from the committed row. -/
def State.Coherent (s : State) : Prop := Agrees s.redis.live s.row

/-- No call is in flight. -/
def State.Quiet (s : State) : Prop :=
  (∀ r ∈ s.readers, r.stage.over) ∧ ∀ w ∈ s.writers, w.stage.over

instance (s : State) : Decidable s.Quiet := inferInstanceAs (Decidable (_ ∧ _))

theorem agrees_none (row : Option PersonaModel) : Agrees none row := by
  intro a value h
  cases a <;> cases h

/-- Merging freshly computed fields into a payload that agrees gives one that agrees. -/
theorem Agrees.update {current : Option Entry} {row : Option PersonaModel} {a : Artifact}
    {fields : Entry} (hcur : Agrees current row) (hf : expected row a = some fields) :
    Agrees (some ((current.getD .empty).update fields)) row := by
  obtain ⟨p, hp, rfl⟩ := Option.map_eq_some_iff.mp hf
  intro b value hb
  have hold : b ≠ a → b.cached (some ((current.getD .empty).update (a.compute p))) =
      b.cached current := by
    intro hne
    cases a <;> cases b <;> cases current <;>
      simp_all [Artifact.cached, Artifact.compute, Entry.update, Entry.empty]
  by_cases hab : b = a
  · subst hab
    cases b <;> simp_all [Artifact.cached, Artifact.compute, Entry.update, Entry.empty, expected]
  · exact hcur b value (hold hab ▸ hb)

/-! ## Updates in flight -/

/-- The update has still to delete the entry of generation `g`. -/
def Writer.Dooms (g : ℕ) (w : Writer) : Prop :=
  match w.stage with
  | .flushed => True
  | .gotGeneration g' | .bumped g' => g = g' ∨ g = g' + 1
  | _ => False

/-- The update is between its generation bump and its commit. -/
def Writer.Midway (w : Writer) : Prop :=
  match w.stage with
  | .bumped _ | .invalidated => True
  | _ => False

instance (g : ℕ) (w : Writer) : Decidable (w.Dooms g) := by
  unfold Writer.Dooms; split <;> infer_instance

instance (w : Writer) : Decidable w.Midway := by
  unfold Writer.Midway; split <;> infer_instance

/-- Some update in flight has still to delete the entry of generation `g`. -/
def State.Doomed (s : State) (g : ℕ) : Prop := ∃ w ∈ s.writers, w.Dooms g

/-- No update is between its generation bump and its commit. -/
def State.Settled (s : State) : Prop := ∀ w ∈ s.writers, ¬ w.Midway

instance (s : State) (g : ℕ) : Decidable (s.Doomed g) :=
  inferInstanceAs (Decidable (∃ w ∈ s.writers, w.Dooms g))

instance (s : State) : Decidable s.Settled :=
  inferInstanceAs (Decidable (∀ w ∈ s.writers, ¬ w.Midway))

/-- A store of a reader is safe: it goes to a generation that is no longer current, or that an update in
    flight has still to delete, or no update is between bump and commit and none has committed since the
    reader read the row. -/
def ReadStage.Safe (s : State) : ReadStage → Prop
  | .merged version _ g _ =>
      g ≠ s.redis.getGeneration ∨ s.Doomed g ∨ (version = s.version ∧ s.Settled)
  | _ => True

instance (s : State) (st : ReadStage) : Decidable (st.Safe s) := by
  unfold ReadStage.Safe; split <;> infer_instance

/-- The step condition: stores are safe. -/
def SafeStore (s : State) : Action → Prop
  | .reader i => ∀ r ∈ s.readers[i]?, r.stage.Safe s
  | _ => True

instance (s : State) (a : Action) : Decidable (SafeStore s a) := by
  unfold SafeStore; split <;> infer_instance

/-! ## The invariant -/

/-- An entry stored now under generation `g` cannot be the one served once all updates are over. -/
def State.Loose (s : State) (g : ℕ) : Prop :=
  g ≠ s.redis.getGeneration ∨ s.Doomed g ∨ ¬ s.Settled

/-- What a reader carries is computed from the row it read, as long as that is the committed one. -/
def Reader.Ok (s : State) (r : Reader) : Prop :=
  match r.stage with
  | .computed v fields | .regotGeneration v fields _ =>
      v ≤ s.version ∧ (v = s.version → expected s.row r.artifact = some fields)
  | .merged v _ g payload =>
      v ≤ s.version ∧ (v = s.version → Agrees (some payload) s.row ∨ s.Loose g)
  | _ => True

/-- Nothing is served, or what is served is doomed, or it agrees with the row and no commit is about to
    change that; and the readers carry nothing else. -/
structure Inv (s : State) : Prop where
  live : s.redis.live = none ∨ s.Doomed s.redis.getGeneration ∨ (s.Settled ∧ s.Coherent)
  readers : ∀ r ∈ s.readers, r.Ok s

section
variable {s t : State} {i : ℕ}

theorem not_settled : ¬ s.Settled ↔ ∃ w ∈ s.writers, w.Midway := by
  simp [State.Settled]

/-- A reader's data stays good when the row stays and no loose generation becomes safe to store to. -/
theorem Reader.Ok.mono {r : Reader} (hr : r.Ok s) (hv : t.version = s.version) (hrow : t.row = s.row)
    (hloose : ∀ g, s.Loose g → t.Loose g) : r.Ok t := by
  unfold Reader.Ok at hr ⊢
  split
  · simp_all
  · simp_all
  · next v _ g payload hst =>
      rw [hst] at hr
      rw [hv, hrow]
      exact ⟨hr.1, fun h => (hr.2 h).imp_right (hloose g)⟩
  · trivial

/-- After a commit no reader's data is taken for current any more. -/
theorem Reader.Ok.commit {r : Reader} (hr : r.Ok s) (hv : t.version = s.version + 1) : r.Ok t := by
  unfold Reader.Ok at hr ⊢
  split
  · next hst =>
      rw [hst] at hr
      -- read before this commit, hence of an older version
      exact ⟨by omega, fun h => by omega⟩
  · next hst =>
      rw [hst] at hr
      exact ⟨by omega, fun h => by omega⟩
  · next hst =>
      rw [hst] at hr
      exact ⟨by omega, fun h => by omega⟩
  · trivial

/-! ## A step of a reader -/

/-- What a reader may store: after its own step it carries good data again. -/
theorem Reader.ok_step (h : Inv s) {r : Reader} (hr : r.Ok s) {redis : Redis} {stage : ReadStage}
    (hstep : r.step s = some (redis, stage)) : Reader.Ok s { r with stage } := by
  obtain ⟨a, st⟩ := r
  cases st with
  | start => cases hstep; trivial
  | gotGeneration g =>
      simp only [Reader.step] at hstep
      split at hstep <;> cases hstep <;> trivial
  | missed =>
      simp only [Reader.step] at hstep
      split at hstep
      · cases hstep; trivial
      · next persona hrow =>
          split at hstep
          · cases hstep; trivial
          · next profile hp =>
              cases hstep
              refine ⟨le_refl _, fun _ => ?_⟩
              simp [expected, hrow, hp]
  | computed v fields => cases hstep; exact hr
  | regotGeneration v fields g =>
      cases hstep
      refine ⟨hr.1, fun hv => ?_⟩
      have hf : expected s.row a = some fields := hr.2 hv
      by_cases hg : g = s.redis.getGeneration
      · subst hg
        -- what is merged in is what the cache would serve now
        rcases h.live with hnone | hdoom | ⟨-, hco⟩
        · have hcur : s.redis.getEntry s.redis.getGeneration = none := hnone
          exact Or.inl (Agrees.update (hcur ▸ agrees_none _) hf)
        · exact Or.inr (Or.inr (Or.inl hdoom))
        · exact Or.inl (Agrees.update hco hf)
      · exact Or.inr (Or.inl hg)
  | merged v fields g payload => cases hstep; trivial
  | returned value => cases hstep
  | raised => cases hstep

/-- A reader changes the keys only by storing what it merged. -/
theorem Reader.redis_step {r : Reader} {redis : Redis} {stage : ReadStage}
    (hstep : r.step s = some (redis, stage)) :
    redis = s.redis ∨ ∃ v fields g payload,
      r.stage = .merged v fields g payload ∧ redis = s.redis.setEntry g payload := by
  obtain ⟨a, st⟩ := r
  cases st with
  | start | computed | regotGeneration => cases hstep; exact Or.inl rfl
  | gotGeneration g =>
      simp only [Reader.step] at hstep
      split at hstep <;> cases hstep <;> exact Or.inl rfl
  | missed =>
      simp only [Reader.step] at hstep
      split at hstep
      · cases hstep; exact Or.inl rfl
      · split at hstep <;> cases hstep <;> exact Or.inl rfl
  | merged v fields g payload => cases hstep; exact Or.inr ⟨v, fields, g, payload, rfl, rfl⟩
  | returned | raised => cases hstep

theorem inv_reader (h : Inv s) {r : Reader} (hi : s.readers[i]? = some r) (hsafe : r.stage.Safe s)
    {redis : Redis} {stage : ReadStage} (hstep : r.step s = some (redis, stage)) :
    Inv { s with redis, readers := s.readers.set i { r with stage } } := by
  have hr : r.Ok s := h.readers r (List.mem_of_getElem? hi)
  have hgen : redis.getGeneration = s.redis.getGeneration := by
    rcases Reader.redis_step hstep with rfl | ⟨-, -, -, -, -, rfl⟩ <;> rfl
  refine ⟨?_, ?_⟩
  · change redis.live = none ∨ s.Doomed redis.getGeneration ∨ (s.Settled ∧ Agrees redis.live s.row)
    rw [hgen]
    rcases Reader.redis_step hstep with rfl | ⟨v, fields, g, payload, hst, rfl⟩
    · exact h.live
    · by_cases hg : g = s.redis.getGeneration
      · -- a store to the current generation: safe, hence doomed or of good data
        subst hg
        rw [hst] at hsafe
        rw [Redis.live_setEntry_self]
        rcases hsafe with hne | hdoom | ⟨hv, hset⟩
        · exact absurd rfl hne
        · exact Or.inr (Or.inl hdoom)
        · have hok : v ≤ s.version ∧ (v = s.version →
              Agrees (some payload) s.row ∨ s.Loose s.redis.getGeneration) := by
            simpa only [Reader.Ok, hst] using hr
          rcases hok.2 hv with hagree | hne | hdoom | hns
          · exact Or.inr (Or.inr ⟨hset, hagree⟩)
          · exact absurd rfl hne
          · exact Or.inr (Or.inl hdoom)
          · exact absurd hset hns
      · rw [Redis.live_setEntry_ne hg]
        exact h.live
  · have hloose : ∀ g, s.Loose g →
        State.Loose { s with redis, readers := s.readers.set i { r with stage } } g := by
      intro g hg
      change g ≠ redis.getGeneration ∨ s.Doomed g ∨ ¬ s.Settled
      rwa [hgen]
    refine Pool.forall_set (fun r' hr' => ?_) ?_
    · exact (h.readers r' hr').mono rfl rfl hloose
    · exact (Reader.ok_step h hr hstep).mono rfl rfl hloose

/-! ## A step of an update -/

/-- An update that does not doom a generation can be replaced without lifting another one's doom. -/
theorem doomed_set {w w' : Writer} {g : ℕ} (hi : s.writers[i]? = some w)
    (hw : w.Dooms g → w'.Dooms g) (hd : s.Doomed g) : ∃ v ∈ s.writers.set i w', v.Dooms g :=
  Pool.exists_set hi hw hd

theorem inv_writer (h : Inv s) {w : Writer} (hi : s.writers[i]? = some w) {s' : State}
    {stage : WriteStage} (hstep : w.step s = some (s', stage)) :
    Inv { s' with writers := s.writers.set i { w with stage } } := by
  obtain ⟨data, st⟩ := w
  have hmem : ∀ w' : Writer, w' ∈ s.writers.set i w' := fun w' => Pool.mem_set_of_getElem? hi
  cases st with
  | start =>
      simp only [Writer.step] at hstep
      split at hstep
      · -- nothing to update: the call is over
        cases hstep
        have hdoom : ∀ g, s.Doomed g → ∃ v ∈ s.writers.set i ⟨data, .notFound⟩, v.Dooms g :=
          fun g => doomed_set hi (fun hd => hd)
        have hset : (∀ v ∈ s.writers.set i ⟨data, .notFound⟩, ¬ v.Midway) ↔ s.Settled :=
          (Pool.forall_set_iff hi (fun hm => hm)).trans (and_iff_left fun hm => hm)
        refine ⟨?_, fun r hr => (h.readers r hr).mono rfl rfl fun g hg => ?_⟩
        · exact h.live.imp_right (Or.imp (hdoom _) (And.imp_left hset.mpr))
        · exact hg.imp_right (Or.imp (hdoom g) (mt hset.mp))
      · cases hstep
        -- it will delete whatever generation is current when it looks
        have hdoom : ∀ g, ∃ v ∈ s.writers.set i ⟨data, .flushed⟩, v.Dooms g :=
          fun g => ⟨_, hmem _, trivial⟩
        refine ⟨Or.inr (Or.inl (hdoom _)), fun r hr => (h.readers r hr).mono rfl rfl fun g _ => ?_⟩
        exact Or.inr (Or.inl (hdoom g))
  | flushed =>
      cases hstep
      -- from here on it dooms the current generation and the next
      have hdoom : ∃ v ∈ s.writers.set i ⟨data, .gotGeneration s.redis.getGeneration⟩,
          v.Dooms s.redis.getGeneration := ⟨_, hmem _, Or.inl rfl⟩
      refine ⟨Or.inr (Or.inl hdoom), fun r hr => (h.readers r hr).mono rfl rfl fun g _ => ?_⟩
      by_cases hg : g = s.redis.getGeneration
      · exact Or.inr (Or.inl (hg ▸ hdoom))
      · exact Or.inl hg
  | gotGeneration a =>
      cases hstep
      refine ⟨Or.inr (Or.inl ⟨_, hmem _, Or.inr rfl⟩), fun r hr => ?_⟩
      exact (h.readers r hr).mono rfl rfl fun g _ => Or.inr (Or.inr (not_settled.mpr ⟨_, hmem _, trivial⟩))
  | bumped a =>
      cases hstep
      refine ⟨?_, fun r hr => ?_⟩
      · change (s.redis.delete a (a + 1)).live = none ∨
          (∃ v ∈ s.writers.set i ⟨data, .invalidated⟩, v.Dooms s.redis.getGeneration) ∨ _
        by_cases hg : s.redis.getGeneration = a ∨ s.redis.getGeneration = a + 1
        · exact Or.inl (Redis.live_delete_self hg)
        · -- the served entry is not the one deleted, and this update is not the one that dooms it
          rcases h.live with hnone | hdoom | ⟨hset, -⟩
          · rw [not_or] at hg
            exact Or.inl (Redis.live_delete_ne hg.1 hg.2 ▸ hnone)
          · exact Or.inr (Or.inl (doomed_set hi (fun hd => absurd hd hg) hdoom))
          · exact absurd trivial (hset _ (List.mem_of_getElem? hi))
      · exact (h.readers r hr).mono rfl rfl fun g _ => Or.inr (Or.inr (not_settled.mpr ⟨_, hmem _, trivial⟩))
  | invalidated =>
      cases hstep
      refine ⟨?_, fun r hr => (h.readers r hr).commit rfl⟩
      rcases h.live with hnone | hdoom | ⟨hset, -⟩
      · exact Or.inl hnone
      · exact Or.inr (Or.inl (doomed_set hi (fun hd => hd) hdoom))
      · exact absurd trivial (hset _ (List.mem_of_getElem? hi))
  | committed | notFound => cases hstep

/-- **Step lemma**: a step that meets the condition keeps the invariant. -/
theorem inv_step {a : Action} (h : Inv s) (hsafe : SafeStore s a) (hstep : system.step s a = some t) :
    Inv t := by
  cases a with
  | get artifact =>
      cases hstep
      refine ⟨h.live, fun r hr => ?_⟩
      rcases List.mem_append.mp hr with hr | hr
      · exact h.readers r hr
      · rw [List.mem_singleton.mp hr]; trivial
  | update data =>
      cases hstep
      have hdoom : ∀ g, s.Doomed g → ∃ w ∈ s.writers ++ [⟨data, .start⟩], w.Dooms g :=
        fun g ⟨w, hw, hd⟩ => ⟨w, List.mem_append_left _ hw, hd⟩
      have hset : (∀ w ∈ s.writers ++ [⟨data, .start⟩], ¬ w.Midway) ↔ s.Settled := by
        simp [State.Settled, or_imp, forall_and, Writer.Midway]
      refine ⟨?_, fun r hr => (h.readers r hr).mono rfl rfl fun g hg => ?_⟩
      · exact h.live.imp_right (Or.imp (hdoom _) (And.imp_left hset.mpr))
      · exact hg.imp_right (Or.imp (hdoom g) (mt hset.mp))
  | reader i =>
      obtain ⟨r, hr, ⟨redis, stage⟩, hst, ht⟩ : ∃ r, s.readers[i]? = some r ∧ ∃ p, r.step s = some p ∧
          some { s with redis := p.1, readers := s.readers.set i { r with stage := p.2 } } = some t := by
        simpa only [system, step, Option.bind_eq_bind, Option.bind_eq_some_iff,
          Option.pure_def] using hstep
      cases ht
      exact inv_reader h hr (hsafe r hr) hst
  | writer i =>
      obtain ⟨w, hw, ⟨s', stage⟩, hst, ht⟩ : ∃ w, s.writers[i]? = some w ∧ ∃ p, w.step s = some p ∧
          some { p.1 with writers := s.writers.set i { w with stage := p.2 } } = some t := by
        simpa only [system, step, Option.bind_eq_bind, Option.bind_eq_some_iff,
          Option.pure_def] using hstep
      cases ht
      exact inv_writer h hw hst

theorem inv_init (h : system.init s) : Inv s := by
  obtain ⟨-, hredis, hreaders, -⟩ := h
  refine ⟨Or.inl (by rw [hredis]; rfl), fun r hr => ?_⟩
  rw [hreaders] at hr
  exact absurd hr List.not_mem_nil

end

/-! ## Whole runs -/

/-- With no update in flight nothing is doomed, so what is served agrees with the row. -/
theorem Inv.coherent {s : State} (h : Inv s) (hq : ∀ w ∈ s.writers, w.stage.over) : s.Coherent := by
  rcases h.live with hnone | ⟨⟨data, st⟩, hw, hd⟩ | ⟨-, hco⟩
  · rw [State.Coherent, hnone]
    exact agrees_none s.row
  · have hover : st.over := hq _ hw
    cases st with
    | committed | notFound => exact False.elim hd
    | start | flushed | gotGeneration | bumped | invalidated => cases hover
  · exact hco

/-- **The cache is coherent under safe stores.** Take any number of concurrent readings and updates of a
    persona, interleaved one DB step or Redis command at a time. If every store of a reader goes to a
    generation that is no longer current, or to one that an update in flight has still to delete, or
    happens while no update is between its generation bump and its commit and none has committed since
    the reader read the row, then in every state reached with no call in flight, what the cache would
    serve is absent or what the engine computes from the committed row. -/
theorem coherent_of_safeStore {s : State} (h : system.Reach SafeStore s) (hq : s.Quiet) :
    s.Coherent :=
  (h.invariant (fun _ => inv_init) fun _ _ _ hI hC hst => inv_step hI hC hst).coherent hq.2

/-! ## A reader between the invalidation and the commit -/

/-- A persona with all knobs in the middle. -/
def ada : PersonaModel where
  id := 1
  name := "Ada"
  description := none
  knobs := fun _ => 1/2
  model := "llama3:8b"
  systemPrompt := none
  temperature := 7/10
  maxTokens := 2000
  isPreset := false

def rename (name : String) (m : PersonaModel) : PersonaModel := { m with name }

def coldCache : State := ⟨some ada, 0, ⟨none, fun _ => none⟩, [], []⟩

/-- An update up to its deletes, a whole reading, then the commit of the update. -/
def readBeforeCommit : List Action :=
  [.update (rename "Eve")] ++ List.replicate 4 (.writer 0) ++
    [.get .systemPrompt] ++ List.replicate 6 (.reader 0) ++ [.writer 0]

/-- All calls are over, and the cache serves the prompt of the row before the update. -/
theorem cache_serves_outdated_prompt :
    ∃ s, system.Reachable s ∧ s.Quiet ∧ ¬ s.Coherent := by
  have hex : ((system.exec coldCache readBeforeCommit).any fun s => s.Quiet &&
      (Artifact.cached .systemPrompt s.redis.live).any fun value =>
        expected s.row .systemPrompt ≠ some value) = true := by
    decide +kernel
  obtain ⟨s, hrun, hp⟩ := System.exists_of_exec hex
  rw [Bool.and_eq_true, decide_eq_true_eq] at hp
  obtain ⟨value, hcached, hne⟩ := (Option.any_eq_true ..).mp hp.2
  exact ⟨s, System.reachable_of_exec ⟨rfl, rfl, rfl, rfl⟩ hrun, hp.1,
    fun hco => of_decide_eq_true hne (hco _ _ hcached)⟩

/-- An update and its commit, then a whole reading: all stores are safe. -/
def readAfterCommit : List Action :=
  [.update (rename "Eve")] ++ List.replicate 5 (.writer 0) ++
    [.get .systemPrompt] ++ List.replicate 6 (.reader 0)

theorem coherent_readAfterCommit :
    ∃ s, system.exec coldCache readAfterCommit = some s ∧ s.redis.live ≠ none ∧ s.Coherent := by
  have hex : ((system.exec coldCache readAfterCommit).any fun s =>
      s.Quiet && s.redis.live.isSome) = true := by
    decide +kernel
  have hsafe : system.Meets SafeStore coldCache readAfterCommit := by decide +kernel
  obtain ⟨s, hrun, hp⟩ := System.exists_of_exec hex
  rw [Bool.and_eq_true, decide_eq_true_eq] at hp
  exact ⟨s, hrun, Option.isSome_iff_ne_none.mp hp.2,
    coherent_of_safeStore ⟨_, ⟨rfl, rfl, rfl, rfl⟩, System.run_of_meets hrun hsafe⟩ hp.1⟩

end Persola.Persona.Cache
