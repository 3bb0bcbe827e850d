import Persola.Lib.Integers
import Mathlib.Data.List.Induction
import Mathlib.Logic.Function.Basic

/-!
# `Team.Recall` — the memory tools of a team through Redis outages

`memory_store` writes two copies, one to the hash of the session in Redis and one to the memory of the process;
`memory_recall` answers from Redis and falls back to the process. Every Redis command may fail by itself. The
copy in the process is always the last one stored; the one in Redis is the last one that reached it, and that is
what a recall answers once Redis is back.
-/

namespace Persola.Team

open Json

variable {ν : Type*} [Numeral ν]

/-! ## The two copies -/

/-- The fields of the session hashes in Redis and the entries of `GLOBAL_MEMORY`, by session and key. -/
structure Memories where
  redis : String × String → Option (List Char)
  process : String × String → Option String

/-- Nothing is stored. -/
def Memories.empty : Memories := ⟨fun _ => none, fun _ => none⟩

/-- What `RedisTeamMemory.store` writes, as JSON text. -/
def payload (ν : Type*) (value sourceRole : String) : Json ν :=
  .obj [("value", .str value), ("tags", .arr []), ("source_role", .str sourceRole)]

/-- `RedisTeamMemory.recall`, given the answer of `HGET`. -/
def redisRecall (raw : Option (List Char)) : Option (Json ν) :=
  match raw with
  | none | some [] => none
  | some raw =>
      match (loads raw).bind (·.get? "value") with
      | none | some .null => none
      | some value => some value

/-- The answer of `memory_recall`. -/
structure Recalled (ν : Type*) where
  key : String
  value : Option (Json ν)
  found : Bool
  source : Option String := none

namespace Memories

variable (ν) in
/-- `memory_store`, with the ends of its two Redis commands. -/
def memoryStore (m : Memories) (session key value sourceRole : String) (hset _expire : Bool) : Memories where
  redis :=
    -- a failing `EXPIRE` leaves what `HSET` has written
    if hset then Function.update m.redis (session, key) (some (dumps (payload ν value sourceRole))) else m.redis
  process := Function.update m.process (session, key) (some value)

/-- `memory_recall`, with the end of its Redis command. -/
def memoryRecall (m : Memories) (session key : String) (hget : Bool) : Recalled ν :=
  match if hget then redisRecall (m.redis (session, key)) else none with
  | some value => { key, value := some value, found := true, source := some "redis" }
  | none =>
      let value := m.process (session, key)
      { key, value := value.map .str, found := value.isSome }

end Memories

/-! ## Calls -/

/-- The calls of the two tools, in one process, and what Redis does on its own. -/
inductive MemoryCall
  | memoryStore (session key value sourceRole : String) (hset expire : Bool)
  | memoryRecall (session key : String) (hget : Bool)
  /-- The time to live of a session's hash is over. -/
  | expired (session : String)

namespace MemoryCall

variable (ν) in
/-- What a call leaves behind. -/
def apply (m : Memories) : MemoryCall → Memories
  | memoryStore session key value sourceRole hset expire => m.memoryStore ν session key value sourceRole hset expire
  | memoryRecall .. => m
  | expired session => { m with redis := fun p => if p.1 = session then none else m.redis p }

/-- What a call stores under a key. -/
def stored (session key : String) : MemoryCall → Option String
  | memoryStore session' key' value _ _ _ => if session' = session ∧ key' = key then some value else none
  | _ => none

/-- What a call does to the copy of a key in Redis: its new content, if it changes it. -/
def reached (session key : String) : MemoryCall → Option (Option String)
  | memoryStore session' key' value _ hset _ =>
      if hset ∧ session' = session ∧ key' = key then some (some value) else none
  | memoryRecall .. => none
  | expired session' => if session' = session then some none else none

end MemoryCall

variable (ν) in
/-- The two copies after some calls. -/
def memoriesAfter (calls : List MemoryCall) : Memories := calls.foldl (MemoryCall.apply ν) .empty

/-- The value of the most recent `memory_store` of a key. -/
def lastStored (calls : List MemoryCall) (session key : String) : Option String :=
  calls.foldl (fun last call => call.stored session key <|> last) none

/-- The value of the most recent `memory_store` of a key that reached Redis and has not expired. -/
def lastReached (calls : List MemoryCall) (session key : String) : Option String :=
  calls.foldl (fun last call => (call.reached session key).getD last) none

/-! ## What a recall answers -/

section
variable {calls : List MemoryCall} {call : MemoryCall} {session key value sourceRole : String} {hget : Bool}

omit [Numeral ν] in
theorem payload_valid : (payload ν value sourceRole).Valid := by
  have hkeys : ("value" :: ["tags", "source_role"]).Nodup := by decide
  refine .obj hkeys fun f hf => ?_
  simp only [List.mem_cons, List.not_mem_nil, or_false] at hf
  rcases hf with rfl | rfl | rfl
  · exact .str
  · exact .arr fun _ h => absurd h List.not_mem_nil
  · exact .str

/-- What is stored is recalled. -/
theorem redisRecall_dumps :
    redisRecall (some (dumps (payload ν value sourceRole))) = some (.str (ν := ν) value) := by
  obtain ⟨c, t, hdumps, -⟩ := dumps_eq_cons (payload ν value sourceRole)
  have hloads : loads (dumps (payload ν value sourceRole)) = some _ := loads_dumps payload_valid
  rw [hdumps] at hloads ⊢
  unfold redisRecall
  dsimp only
  rw [hloads]
  rfl

theorem memoriesAfter_snoc : memoriesAfter ν (calls ++ [call]) = call.apply ν (memoriesAfter ν calls) := by
  unfold memoriesAfter
  rw [List.foldl_append]
  rfl

theorem lastStored_snoc : lastStored (calls ++ [call]) session key =
    (call.stored session key <|> lastStored calls session key) := by
  unfold lastStored
  rw [List.foldl_append]
  rfl

theorem lastReached_snoc : lastReached (calls ++ [call]) session key =
    (call.reached session key).getD (lastReached calls session key) := by
  unfold lastReached
  rw [List.foldl_append]
  rfl

theorem pair_ne {session' key' : String} (h : ¬ (session' = session ∧ key' = key)) :
    (session, key) ≠ (session', key') := by
  intro heq
  obtain ⟨rfl, rfl⟩ := Prod.mk.inj heq
  exact h ⟨rfl, rfl⟩

/-- **The copy in the process is the last one stored.** -/
theorem process_eq : (memoriesAfter ν calls).process (session, key) = lastStored calls session key := by
  induction calls using List.reverseRecOn with
  | nil => rfl
  | append_singleton calls call ih =>
      rw [lastStored_snoc, ← ih, memoriesAfter_snoc]
      cases call with
      | memoryStore session' key' value sourceRole hset expire =>
          show Function.update (memoriesAfter ν calls).process (session', key') (some value) (session, key) = _
          by_cases h : session' = session ∧ key' = key
          · obtain ⟨rfl, rfl⟩ := h
            simp [MemoryCall.stored]
          · rw [Function.update_of_ne (pair_ne h)]
            simp [MemoryCall.stored, h]
      | memoryRecall => rfl
      | expired => rfl

/-- **The copy in Redis is the last one that reached it.** -/
theorem redis_eq : redisRecall ((memoriesAfter ν calls).redis (session, key)) =
    (lastReached calls session key).map (.str (ν := ν)) := by
  induction calls using List.reverseRecOn with
  | nil => rfl
  | append_singleton calls call ih =>
      rw [lastReached_snoc, memoriesAfter_snoc]
      cases call with
      | memoryStore session' key' value sourceRole hset expire =>
          let redis := (memoriesAfter ν calls).redis
          let text := dumps (payload ν value sourceRole)
          show redisRecall
            ((if hset then Function.update redis (session', key') (some text) else redis) (session, key))
            = _
          cases hset with
          | false =>
              simp only [MemoryCall.reached, Bool.false_eq_true, false_and, if_false]
              exact ih
          | true =>
              by_cases h : session' = session ∧ key' = key
              · obtain ⟨rfl, rfl⟩ := h
                have hrecall : redisRecall (some text) = some (.str (ν := ν) value) := redisRecall_dumps
                simp [MemoryCall.reached, hrecall]
              · rw [if_pos rfl, Function.update_of_ne (pair_ne h)]
                simpa [MemoryCall.reached, h] using ih
      | memoryRecall => exact ih
      | expired session' =>
          show redisRecall (if session = session' then none else (memoriesAfter ν calls).redis (session, key)) = _
          by_cases h : session' = session
          · subst h
            simp [MemoryCall.reached, redisRecall]
          · rw [if_neg fun heq => h heq.symm]
            simpa [MemoryCall.reached, h] using ih

/-- A recall after some calls answers with the value stored last, and finds nothing exactly if nothing was
stored. -/
def RecallsLast (ν : Type*) [Numeral ν] (calls : List MemoryCall) (session key : String) (hget : Bool) : Prop :=
  let answer : Recalled ν := (memoriesAfter ν calls).memoryRecall session key hget
  answer.value = (lastStored calls session key).map .str ∧ answer.found = (lastStored calls session key).isSome

/-- The copy that Redis has of a key, if any, is the last one stored. -/
def Reached (calls : List MemoryCall) (session key : String) : Prop :=
  ∀ value ∈ lastReached calls session key, lastStored calls session key = some value

instance : Decidable (Reached calls session key) := inferInstanceAs (Decidable (∀ _ ∈ _, _))

/-- **One recall** answers with the last value exactly if it does not get through to an older one in Redis. -/
theorem recallsLast_iff : RecallsLast ν calls session key hget ↔ (hget = true → Reached calls session key) := by
  unfold RecallsLast Memories.memoryRecall Reached
  rw [redis_eq, process_eq]
  cases hget with
  | false => exact iff_of_true ⟨rfl, rfl⟩ fun h => by cases h
  | true =>
      cases hreached : lastReached calls session key with
      | none => exact iff_of_true ⟨rfl, rfl⟩ fun _ value h => by cases h
      | some value =>
          show some (Json.str value) = _ ∧ true = _ ↔ _
          cases hstored : lastStored calls session key with
          | none => simp
          | some last => simp [eq_comm]

end

/-- **Every recall of a sequence of calls answers with the value stored last, exactly if none of them gets
through to an older value in Redis.** -/
theorem recalls_iff (calls : List MemoryCall) :
    (∀ pre session key hget post, calls = pre ++ .memoryRecall session key hget :: post →
        RecallsLast ν pre session key hget) ↔
      ∀ pre session key post, calls = pre ++ .memoryRecall session key true :: post → Reached pre session key := by
  constructor
  · intro h pre session key post hcalls
    exact recallsLast_iff.mp (h pre session key true post hcalls) rfl
  · intro h pre session key hget post hcalls
    refine recallsLast_iff.mpr fun hget' => ?_
    subst hget'
    exact h pre session key post hcalls

/-! ## Outages -/

/-- **Redis is away for the second store only**: the recall answers with the first value. -/
theorem recall_answers_older : ¬ ∀ (calls pre post : List MemoryCall) session key hget,
    calls = pre ++ .memoryRecall session key hget :: post → RecallsLast ℤ pre session key hget := by
  intro hall
  let pre : List MemoryCall :=
    [.memoryStore "s" "plan" "draft" "tool" true true, .memoryStore "s" "plan" "final" "tool" false true]
  have hlast := recallsLast_iff.mp (hall (pre ++ [.memoryRecall "s" "plan" true]) pre [] "s" "plan" true rfl) rfl
  revert hlast
  decide

end Persola.Team
