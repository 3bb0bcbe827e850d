import Persola.Lib.Runs
import Persola.Persona.Engine
import Mathlib.Logic.Function.Basic

/-!
# `Persona.Cache` — the versioned cache of derived artifacts, command by command

`PersonaCache` keeps one entry for each persona and generation, and `PersonaService` reads it first, falls
back to the row and then stores what it computed. The model is one persona: its committed row, its Redis
keys, and any number of concurrent `get_system_prompt` / `get_sampling_params` and `update` calls, each of
which does one DB step or one Redis command at a time.
-/

namespace Persola.Persona.Cache

open Runs

/-! ## Entries -/

/-- The JSON object stored under an entry key. -/
structure Entry where
  systemPrompt : Option String
  sampling : Option SamplingParams
deriving DecidableEq, Repr

/-- `{}`. -/
def Entry.empty : Entry := ⟨none, none⟩

/-- `current.update(fields)`. -/
def Entry.update (current fields : Entry) : Entry where
  systemPrompt := fields.systemPrompt <|> current.systemPrompt
  sampling := fields.sampling <|> current.sampling

/-- What a caller asks for. -/
inductive Artifact
  | systemPrompt
  | sampling
deriving DecidableEq, Repr

/-- The field of a payload that `PersonaCache.get_system_prompt` or `get_sampling` returns; an empty
    prompt counts as a miss. -/
def Artifact.cached (a : Artifact) (payload : Option Entry) : Option Entry :=
  match a with
  | .systemPrompt =>
      ((payload.bind (·.systemPrompt)).filter (· ≠ "")).map fun prompt =>
        { Entry.empty with systemPrompt := some prompt }
  | .sampling =>
      (payload.bind (·.sampling)).map fun params => { Entry.empty with sampling := some params }

/-- What the engine computes from a profile, as the fields `_set_fields` is called with. -/
def Artifact.compute (a : Artifact) (p : PersonaProfile) : Entry :=
  match a with
  | .systemPrompt => { Entry.empty with systemPrompt := some (buildSystemPrompt p) }
  | .sampling => { Entry.empty with sampling := some (getSamplingParams p) }

/-! ## Redis -/

/-- The keys of the persona: the generation counter and one entry for each generation. -/
structure Redis where
  generation : Option ℕ
  entries : ℕ → Option Entry

namespace Redis

/-- `_get_generation`: no key counts as generation 0. -/
def getGeneration (r : Redis) : ℕ := r.generation.getD 0

/-- `_get_entry_for_generation`. -/
def getEntry (r : Redis) (g : ℕ) : Option Entry := r.entries g

/-- `SET entry`. -/
def setEntry (r : Redis) (g : ℕ) (e : Entry) : Redis :=
  { r with entries := Function.update r.entries g (some e) }

/-- `SET generation`. -/
def setGeneration (r : Redis) (g : ℕ) : Redis := { r with generation := some g }

/-- `DEL` of the entries of two generations. -/
def delete (r : Redis) (g g' : ℕ) : Redis :=
  { r with entries := Function.update (Function.update r.entries g none) g' none }

/-- The payload the cache would serve from. -/
def live (r : Redis) : Option Entry := r.getEntry r.getGeneration

variable {r : Redis} {g g' : ℕ} {e : Entry}

@[simp] theorem getGeneration_setEntry : (r.setEntry g e).getGeneration = r.getGeneration := rfl

@[simp] theorem getGeneration_setGeneration : (r.setGeneration g).getGeneration = g := rfl

@[simp] theorem getGeneration_delete : (r.delete g g').getGeneration = r.getGeneration := rfl

theorem live_setEntry_self : (r.setEntry r.getGeneration e).live = some e := by
  change Function.update r.entries r.getGeneration (some e) r.getGeneration = some e
  simp

theorem live_setEntry_ne (h : g ≠ r.getGeneration) : (r.setEntry g e).live = r.live :=
  Function.update_of_ne h.symm _ _

theorem live_delete_self (h : r.getGeneration = g ∨ r.getGeneration = g') :
    (r.delete g g').live = none := by
  change Function.update (Function.update r.entries g none) g' none r.getGeneration = none
  rcases h with h | h <;> simp [Function.update_apply, h]

theorem live_delete_ne (h : r.getGeneration ≠ g) (h' : r.getGeneration ≠ g') :
    (r.delete g g').live = r.live := by
  change Function.update (Function.update r.entries g none) g' none r.getGeneration = _
  rw [Function.update_of_ne h', Function.update_of_ne h]
  rfl

end Redis

/-! ## The calls -/

/-- Where a `get_system_prompt` or `get_sampling_params` call stands. `version` is the number of commits
    before its DB read; the code does not see it. -/
inductive ReadStage
  | start
  | gotGeneration (g : ℕ)
  | missed
  | computed (version : ℕ) (fields : Entry)
  | regotGeneration (version : ℕ) (fields : Entry) (g : ℕ)
  | merged (version : ℕ) (fields : Entry) (g : ℕ) (payload : Entry)
  | returned (value : Option Entry)
  | raised

/-- The call has ended. -/
def ReadStage.over : ReadStage → Bool
  | .returned _ | .raised => true
  | _ => false

structure Reader where
  artifact : Artifact
  stage : ReadStage

/-- Where an `update` call and its caller's commit stand. -/
inductive WriteStage
  | start
  | flushed
  | gotGeneration (g : ℕ)
  | bumped (g : ℕ)
  | invalidated
  | committed
  | notFound
deriving DecidableEq

/-- The call has ended, its commit included. -/
def WriteStage.over : WriteStage → Bool
  | .committed | .notFound => true
  | _ => false

/-- An update; `data` sets the columns it was given. -/
structure Writer where
  data : PersonaModel → PersonaModel
  stage : WriteStage

/-- The committed row, the number of commits so far (a ghost), the keys and the calls. -/
structure State where
  row : Option PersonaModel
  version : ℕ
  redis : Redis
  readers : List Reader
  writers : List Writer

/-- One step of a reading call: the entry lookup in two commands, the DB read with the computation on
    the profile, then `_set_fields` in three commands, which looks the generation up again. -/
def Reader.step (s : State) (r : Reader) : Option (Redis × ReadStage) :=
  match r.stage with
  | .start => some (s.redis, .gotGeneration s.redis.getGeneration)
  | .gotGeneration g =>
      match r.artifact.cached (s.redis.getEntry g) with
      | some value => some (s.redis, .returned (some value))
      | none => some (s.redis, .missed)
  | .missed =>
      match s.row with
      | none => some (s.redis, .returned none)
      | some persona =>
          match persona.toProfile with
          | none => some (s.redis, .raised)
          | some profile => some (s.redis, .computed s.version (r.artifact.compute profile))
  | .computed version fields =>
      -- not the generation the row was read under: an update may have moved it on
      some (s.redis, .regotGeneration version fields s.redis.getGeneration)
  | .regotGeneration version fields g =>
      -- read and written back in two commands, so a store in between is overwritten
      let current := (s.redis.getEntry g).getD .empty
      some (s.redis, .merged version fields g (current.update fields))
  | .merged _ fields g payload => some (s.redis.setEntry g payload, .returned (some fields))
  | .returned _ | .raised => none

/-- One step of an updating call: read and flush the row, `invalidate` in three commands, commit. -/
def Writer.step (s : State) (w : Writer) : Option (State × WriteStage) :=
  match w.stage with
  | .start =>
      match s.row with
      | none => some (s, .notFound)
      | some _ => some (s, .flushed)
  | .flushed => some (s, .gotGeneration s.redis.getGeneration)
  -- two updates that read the same generation move it on once
  | .gotGeneration g => some ({ s with redis := s.redis.setGeneration (g + 1) }, .bumped g)
  | .bumped g => some ({ s with redis := s.redis.delete g (g + 1) }, .invalidated)
  | .invalidated =>
      -- the caller commits only now: the invalidation came first
      some ({ s with row := s.row.map w.data, version := s.version + 1 }, .committed)
  | .committed | .notFound => none

inductive Action
  | get (artifact : Artifact)
  | update (data : PersonaModel → PersonaModel)
  | reader (i : ℕ)
  | writer (i : ℕ)

def step (s : State) : Action → Option State
  | .get artifact => some { s with readers := s.readers ++ [⟨artifact, .start⟩] }
  | .update data => some { s with writers := s.writers ++ [⟨data, .start⟩] }
  | .reader i => do
      let r ← s.readers[i]?
      let (redis, stage) ← r.step s
      return { s with redis, readers := s.readers.set i { r with stage } }
  | .writer i => do
      let w ← s.writers[i]?
      let (s', stage) ← w.step s
      return { s' with writers := s.writers.set i { w with stage } }

/-- Any row, a cold cache and no call yet. -/
def system : System State Action where
  init s := s.version = 0 ∧ s.redis = ⟨none, fun _ => none⟩ ∧ s.readers = [] ∧ s.writers = []
  step := step

end Persola.Persona.Cache
