import Persola.Tools.Registry
import Mathlib.Data.List.Basic

/-!
# `Tools.Parallel` — `run_parallel` beside one call after another

`run_parallel` runs the calls of serial tools where they stand and postpones the others to the end. Where the
postponed tools only read, everything is written in the order of the list, but every read sees the last state: the
two executions answer the same exactly if no read minds what is written after it.
-/

namespace Persola.Tools

variable {σ α β : Type*}

/-- A handler: what it answers or raises, and what it leaves behind. -/
abbrev Handler (σ α β : Type*) := α → σ → Except String β × σ

/-- An entry of the results of `run_parallel`. -/
inductive Entry (β : Type*)
  | result (name : String) (result : β)
  | unknownTool (name : String)
  | missing
deriving DecidableEq

namespace ToolRegistry

section
variable (registry : ToolRegistry (Handler σ α β))

/-- The tool of a name is registered with `parallel_safe=False`. -/
def serial (name : String) : Bool := (registry.get name).any fun spec => !spec.parallelSafe

/-- `ToolRegistry.run`; `none` is the answer that the tool is unknown. -/
def run (call : Call α) (s : σ) : Except String (Option β) × σ :=
  match registry.get call.name with
  | none => (.ok none, s)
  | some spec =>
      let r := spec.handler call.args s
      (r.1.map some, r.2)

/-- The calls one after another, as `execute_tool_calls` runs them: a call that raises is reported. -/
def runEach : List (Call α) → σ → List (Except String (Option β)) × σ
  | [], s => ([], s)
  | call :: calls, s =>
      let r := registry.run call s
      let rest := runEach calls r.2
      (r.1 :: rest.1, rest.2)

/-- The coroutine `_run` of `run_parallel`. -/
def runCall (call : Call α) (s : σ) : Except String (Entry β × σ) :=
  match registry.get call.name with
  | none => .ok (.unknownTool call.name, s)
  | some spec =>
      match spec.handler call.args s with
      | (.ok result, s) => .ok (.result call.name result, s)
      | (.error e, _) => .error e

/-- The loop of `run_parallel`: serial calls are awaited where they stand. -/
def loop : List (Call α) → σ → Except String (List (Option (Entry β)) × σ)
  | [], s => .ok ([], s)
  | call :: calls, s =>
      if registry.serial call.name then do
        let (entry, s) ← registry.runCall call s
        let (results, s) ← loop calls s
        return (some entry :: results, s)
      else do
        let (results, s) ← loop calls s
        return (none :: results, s)

/-- `parallel_idx`. -/
def parallelIdx (calls : List (Call α)) : List ℕ :=
  (List.range calls.length).filter fun i => (calls[i]?).any fun call => !registry.serial call.name

/-- `await asyncio.gather(*parallel_coros)`, for an order in which the coroutines get to their handlers. -/
def gather (calls : List (Call α)) (order : List ℕ) (results : List (Option (Entry β))) (s : σ) :
    Except String (List (Option (Entry β)) × σ) :=
  order.foldlM (fun (results, s) i =>
    match calls[i]? with
    | none => .ok (results, s)
    | some call => do
        let (entry, s) ← registry.runCall call s
        return (results.set i (some entry), s)) (results, s)

/-- `run_parallel`. -/
def runParallel (order : List ℕ) (calls : List (Call α)) (s : σ) : Except String (List (Entry β) × σ) := do
  let (results, s) ← registry.loop calls s
  let (results, s) ← registry.gather calls order results s
  return (results.map (·.getD .missing), s)

end

/-- The entry that `run_parallel` has for an answer. -/
def entryOf (name : String) : Except String (Option β) → Entry β
  | .ok (some result) => .result name result
  | .ok none => .unknownTool name
  | .error _ => .missing

/-- `run_parallel` answers, entry by entry, what the calls answer one after another. -/
def AnswersInOrder (registry : ToolRegistry (Handler σ α β)) (order : List ℕ) (calls : List (Call α)) (s : σ) :
    Prop :=
  (registry.runParallel order calls s).map Prod.fst =
    .ok (List.zipWith (fun call answer => entryOf call.name answer) calls (registry.runEach calls s).1)

/-! ## One after another -/

section
variable {registry : ToolRegistry (Handler σ α β)} {calls : List (Call α)} {call : Call α} {s t : σ} {i : ℕ}

/-- What the calls leave behind. -/
def after (registry : ToolRegistry (Handler σ α β)) (calls : List (Call α)) (s : σ) : σ :=
  calls.foldl (fun s call => (registry.run call s).2) s

theorem getElem?_runEach : (registry.runEach calls s).1[i]? =
    (calls[i]?).map fun call => (registry.run call (registry.after (calls.take i) s)).1 := by
  induction calls generalizing s i with
  | nil => rfl
  | cons call calls ih =>
      cases i with
      | zero => rfl
      | succ i => exact ih

/-- A coroutine answers what the call answers, unless it raises. -/
theorem runCall_eq (h : ∀ e, (registry.run call s).1 ≠ .error e) :
    registry.runCall call s = .ok (entryOf call.name (registry.run call s).1, (registry.run call s).2) := by
  unfold runCall
  unfold run at h ⊢
  cases hspec : registry.get call.name with
  | none => rfl
  | some spec =>
      simp only [hspec] at h ⊢
      cases hanswer : spec.handler call.args s with
      | mk answer t =>
          cases answer with
          | ok result => rfl
          | error e => exact absurd (by rw [hanswer]; rfl) (h e)

/-- An entry tells the answer, unless the call raised. -/
theorem entryOf_inj {name : String} {answer answer' : Except String (Option β)} (h : ∀ e, answer ≠ .error e)
    (h' : ∀ e, answer' ≠ .error e) : entryOf name answer = entryOf name answer' ↔ answer = answer' := by
  cases answer with
  | error e => exact absurd rfl (h e)
  | ok result =>
      cases answer' with
      | error e => exact absurd rfl (h' e)
      | ok result' => cases result <;> cases result' <;> simp [entryOf]

/-! ## The postponed calls -/

/-- No call of the run raises, and the postponed ones only read: neither where they stand nor at the end do they
    raise or leave anything behind. -/
structure Postponable (registry : ToolRegistry (Handler σ α β)) (calls : List (Call α)) (s : σ) : Prop where
  ok : ∀ i call, calls[i]? = some call → ∀ e, (registry.run call (registry.after (calls.take i) s)).1 ≠ .error e
  reads : ∀ call ∈ calls, registry.serial call.name = false → ∀ t, (registry.run call t).2 = t
  late : ∀ call ∈ calls, registry.serial call.name = false →
    ∀ e, (registry.run call (registry.after calls s)).1 ≠ .error e

/-- The loop leaves behind what all the calls would, and has the entries of the serial ones. -/
theorem loop_spec (hok : ∀ i call, calls[i]? = some call → ∀ e,
      (registry.run call (registry.after (calls.take i) s)).1 ≠ .error e)
    (hreads : ∀ call ∈ calls, registry.serial call.name = false → ∀ t, (registry.run call t).2 = t) :
    ∃ results, registry.loop calls s = .ok (results, registry.after calls s) ∧ results.length = calls.length ∧
      ∀ i, results[i]? = (calls[i]?).map fun call =>
        if registry.serial call.name then
          some (entryOf call.name (registry.run call (registry.after (calls.take i) s)).1)
        else none := by
  induction calls generalizing s with
  | nil => exact ⟨[], rfl, rfl, fun i => rfl⟩
  | cons call calls ih =>
      have hrest := ih (s := (registry.run call s).2) (fun i => hok (i + 1))
        fun c hc => hreads c (List.mem_cons_of_mem _ hc)
      obtain ⟨results, hloop, hlength, hresults⟩ := hrest
      have hafter : registry.after (call :: calls) s = registry.after calls (registry.run call s).2 := rfl
      rw [loop, hafter]
      cases hserial : registry.serial call.name with
      | true =>
          have hhere : ∀ e, (registry.run call s).1 ≠ .error e := hok 0 call rfl
          refine ⟨some (entryOf call.name (registry.run call s).1) :: results, ?_, congrArg (· + 1) hlength,
            fun i => ?_⟩
          · rw [if_pos rfl, runCall_eq hhere]
            show (registry.loop calls (registry.run call s).2 >>= _) = _
            rw [hloop]
            rfl
          · cases i with
            | zero => simp [hserial, after]
            | succ i => exact hresults i
      | false =>
          have hsame : (registry.run call s).2 = s := hreads call List.mem_cons_self hserial s
          rw [hsame] at hloop hresults
          refine ⟨none :: results, ?_, congrArg (· + 1) hlength, fun i => ?_⟩
          · rw [if_neg Bool.false_ne_true, hloop, hsame]
            rfl
          · cases i with
            | zero => simp [hserial]
            | succ i =>
                have htake : registry.after ((call :: calls).take (i + 1)) s =
                    registry.after (calls.take i) s := by
                  show registry.after (calls.take i) (registry.run call s).2 = _
                  rw [hsame]
                rw [htake]
                exact hresults i

/-- The gathered coroutines see the state they are started in, whatever their order. -/
theorem gather_spec {order : List ℕ} {results : List (Option (Entry β))} (hlength : results.length = calls.length)
    (horder : ∀ i ∈ order, ∃ call, calls[i]? = some call ∧ (registry.run call s).2 = s ∧
      ∀ e, (registry.run call s).1 ≠ .error e) :
    ∃ results', registry.gather calls order results s = .ok (results', s) ∧
      ∀ i, results'[i]? =
        if i ∈ order then (calls[i]?).map fun call => some (entryOf call.name (registry.run call s).1)
        else results[i]? := by
  induction order generalizing results with
  | nil => exact ⟨results, rfl, fun i => by simp⟩
  | cons k order ih =>
      obtain ⟨call, hcall, hsame, hok⟩ := horder k List.mem_cons_self
      have hset : (results.set k (some (entryOf call.name (registry.run call s).1))).length = calls.length :=
        (List.length_set ..).trans hlength
      obtain ⟨results', hgather, hresults⟩ := ih hset fun i hi => horder i (List.mem_cons_of_mem _ hi)
      refine ⟨results', ?_, fun i => ?_⟩
      · show (registry.gather calls (k :: order) results s) = _
        unfold gather at hgather ⊢
        rw [List.foldlM_cons]
        dsimp only
        rw [hcall]
        dsimp only
        rw [runCall_eq hok, hsame]
        exact hgather
      · rw [hresults]
        by_cases hi : i ∈ order
        · rw [if_pos hi, if_pos (List.mem_cons_of_mem _ hi)]
        · rw [if_neg hi]
          by_cases hik : k = i
          · subst hik
            have hlt : k < results.length := hlength ▸ (List.getElem?_eq_some_iff.mp hcall).1
            rw [if_pos List.mem_cons_self, List.getElem?_set_self hlt, hcall]
            rfl
          · rw [List.getElem?_set_ne hik, if_neg (by simp [Ne.symm hik, hi])]

theorem mem_parallelIdx : i ∈ registry.parallelIdx calls ↔
    ∃ call, calls[i]? = some call ∧ registry.serial call.name = false := by
  unfold parallelIdx
  rw [List.mem_filter, List.mem_range, Option.any_eq_true]
  constructor
  · rintro ⟨-, call, hcall, hserial⟩
    exact ⟨call, hcall, by simpa using hserial⟩
  · rintro ⟨call, hcall, hserial⟩
    exact ⟨(List.getElem?_eq_some_iff.mp hcall).1, call, hcall, by simpa using hserial⟩

/-- **What `run_parallel` answers**: a serial call where it stands, a postponed one at the end of all. -/
theorem runParallel_spec {order : List ℕ} (h : registry.Postponable calls s)
    (horder : order.Perm (registry.parallelIdx calls)) :
    ∃ entries, registry.runParallel order calls s = .ok (entries, registry.after calls s) ∧
      ∀ i, entries[i]? = (calls[i]?).map fun call =>
        entryOf call.name (registry.run call
          (if registry.serial call.name then registry.after (calls.take i) s else registry.after calls s)).1 := by
  obtain ⟨results, hloop, hlength, hresults⟩ := loop_spec h.ok h.reads
  have hreads : ∀ i ∈ order, ∃ call, calls[i]? = some call ∧
      (registry.run call (registry.after calls s)).2 = registry.after calls s ∧
        ∀ e, (registry.run call (registry.after calls s)).1 ≠ .error e := by
    intro i hi
    obtain ⟨call, hcall, hserial⟩ := mem_parallelIdx.mp (horder.mem_iff.mp hi)
    have hmem := List.mem_of_getElem? hcall
    exact ⟨call, hcall, h.reads call hmem hserial _, h.late call hmem hserial⟩
  obtain ⟨results', hgather, hresults'⟩ := gather_spec hlength hreads
  refine ⟨results'.map (·.getD .missing), ?_, fun i => ?_⟩
  · unfold runParallel
    rw [hloop]
    show (registry.gather calls order results (registry.after calls s) >>= _) = _
    rw [hgather]
    rfl
  · rw [List.getElem?_map, hresults', hresults]
    simp only [horder.mem_iff, mem_parallelIdx]
    cases hcall : calls[i]? with
    | none => simp
    | some call =>
        cases hserial : registry.serial call.name with
        | true => simp [hserial]
        | false => simp [hserial]

/-- **`run_parallel` answers in order exactly if no postponed call minds the calls after it.** -/
theorem answersInOrder_iff {order : List ℕ} (h : registry.Postponable calls s)
    (horder : order.Perm (registry.parallelIdx calls)) :
    registry.AnswersInOrder order calls s ↔ ∀ i call, calls[i]? = some call → registry.serial call.name = false →
      (registry.run call (registry.after calls s)).1 =
        (registry.run call (registry.after (calls.take i) s)).1 := by
  obtain ⟨entries, hrun, hentries⟩ := runParallel_spec h horder
  have hwise : registry.AnswersInOrder order calls s ↔ ∀ i, entries[i]? = (calls[i]?).map fun call =>
      entryOf call.name (registry.run call (registry.after (calls.take i) s)).1 := by
    unfold AnswersInOrder
    rw [hrun]
    show Except.ok entries = _ ↔ _
    rw [Except.ok.injEq, List.ext_getElem?_iff]
    apply forall_congr'
    intro i
    rw [List.getElem?_zipWith, getElem?_runEach]
    cases calls[i]? with
    | none => rfl
    | some call => rfl
  rw [hwise]
  apply forall_congr'
  intro i
  rw [hentries]
  cases hcall : calls[i]? with
  | none => simp
  | some call =>
      have hmem := List.mem_of_getElem? hcall
      simp only [Option.map_some, Option.some.injEq, forall_eq']
      cases hserial : registry.serial call.name with
      | true => simp
      | false =>
          simp only [Bool.false_eq_true, if_false, true_implies]
          exact entryOf_inj (h.late call hmem hserial) (h.ok i call hcall)

end

end ToolRegistry

end Persola.Tools
