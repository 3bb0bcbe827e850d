import Persola.Lib.Pool
import Persola.Lib.Runs
import Persola.Team.Model

/-!
# `Team.Memory` — the memory rows of a team session, written by runs that overlap

Every run of `TeamService.invoke` on an external session has a transaction of its own, here statement by
statement: it finds or inserts the row of the session, lets the team work, stores the last output of each role
with `upsert_entry` and commits. A read sees the committed rows and the run's own. The session's id is unique,
so of two runs that both create the session one fails; and who updates a row holds it until the run ends. For
the memory rows nothing of the kind stands between the `SELECT` of an upsert and its `INSERT`.
-/

namespace Persola.Team

open Runs

/-! ## Rows -/

abbrev RowId := ℕ

/-- A row of `team_memory`, of the session at hand. -/
structure TeamMemoryModel where
  id : RowId
  memoryKey : String
  value : String
  tags : List String
  sourceRole : String
deriving DecidableEq, Repr

/-- The key a step of this role is stored under. -/
def PersonalityRole.memoryKey (role : PersonalityRole) : String := role.value ++ ":latest"

theorem PersonalityRole.memoryKey_injective : Function.Injective PersonalityRole.memoryKey := by
  intro a b h
  cases a <;> cases b <;> first | rfl | exact absurd h (by decide)

namespace WorkflowStepRecord

def memoryKey (step : WorkflowStepRecord) : String := step.role.memoryKey

/-- The entry `upsert_entry` creates for a step. -/
def entry (step : WorkflowStepRecord) (id : RowId) : TeamMemoryModel where
  id := id
  memoryKey := step.memoryKey
  value := String.ofList (step.output.toList.take 4000)
  tags := ["workflow", step.role.value]
  sourceRole := step.role.value

/-- What it makes of an existing entry. -/
def overwrite (step : WorkflowStepRecord) (row : TeamMemoryModel) : TeamMemoryModel :=
  { step.entry row.id with memoryKey := row.memoryKey }

end WorkflowStepRecord

/-! ## Runs -/

/-- How far a run has come. -/
inductive InvokeStage
  | opened
  /-- No row of the session was found. -/
  | absent
  | orchestrating
  /-- Before the `SELECT` for the next step; without steps, before the message count. -/
  | looking (todo : List WorkflowStepRecord)
  /-- Between the `SELECT` and the write. -/
  | found (existing : Option RowId) (step : WorkflowStepRecord) (todo : List WorkflowStepRecord)
  | counted
  | committed
  /-- Raised `MultipleResultsFound`. -/
  | severalFound
  /-- Raised anything else. -/
  | failed
deriving DecidableEq

/-- The run has returned or raised. -/
def InvokeStage.over : InvokeStage → Bool
  | .committed | .severalFound | .failed => true
  | _ => false

/-- A run of `invoke`, with what it has written and not committed. -/
structure Invoke where
  personaId : Option ℕ
  stage : InvokeStage := .opened
  createsSession : Bool := false
  setsPersona : Bool := false
  inserted : List TeamMemoryModel := []
  overwritten : List (RowId × WorkflowStepRecord) := []

/-- The run has updated the row of the session, and holds it. -/
def Invoke.holdsSession (r : Invoke) : Bool := !r.stage.over && (r.setsPersona || r.stage = .counted)

/-- The run has updated this memory row, and holds it. -/
def Invoke.holds (r : Invoke) (id : RowId) : Bool := !r.stage.over && r.overwritten.any (·.1 = id)

/-- A run that raises is rolled back. -/
def Invoke.rollback (r : Invoke) (stage : InvokeStage) : Invoke where
  personaId := r.personaId
  stage := stage

/-- The steps a run has still to store. -/
def Invoke.todo (r : Invoke) : List WorkflowStepRecord :=
  match r.stage with
  | .looking todo => todo
  | .found _ step todo => step :: todo
  | _ => []

/-- The committed rows, the runs and the next unused id; `session` is the `persona_id` of the session's row,
if there is one. -/
structure TeamDb where
  session : Option (Option ℕ)
  memory : List TeamMemoryModel
  runs : List Invoke
  fresh : RowId

namespace TeamDb

/-- A run moves on. -/
def move (s : TeamDb) (i : ℕ) (r : Invoke) : TeamDb := { s with runs := s.runs.set i r }

/-- Some other run meets the test. -/
def another (s : TeamDb) (i : ℕ) (p : Invoke → Bool) : Bool := (s.runs.eraseIdx i).any p

/-- The rows of a key that a run sees. -/
def visible (s : TeamDb) (r : Invoke) (key : String) : List TeamMemoryModel :=
  (s.memory ++ r.inserted).filter (·.memoryKey = key)

/-- The rows as the updates of a run leave them. -/
def applied (overwritten : List (RowId × WorkflowStepRecord)) (row : TeamMemoryModel) : TeamMemoryModel :=
  overwritten.foldl (fun row (id, step) => if row.id = id then step.overwrite row else row) row

/-- The commit of a run. -/
def commit (s : TeamDb) (i : ℕ) (r : Invoke) : TeamDb where
  session :=
    if r.createsSession then some r.personaId
    else if r.setsPersona then some r.personaId
    else s.session
  memory := (s.memory ++ r.inserted).map (applied r.overwritten)
  runs := s.runs.set i { r with stage := .committed }
  fresh := s.fresh

/-- The next statement of a run; `none` while it waits for another one. -/
def advance (s : TeamDb) (i : ℕ) (r : Invoke) : Option TeamDb :=
  match r.stage with
  | .opened =>
      match s.session with
      | none => some (s.move i { r with stage := .absent })
      | some personaId =>
          if r.personaId.isSome ∧ personaId ≠ r.personaId then
            if s.another i Invoke.holdsSession then none
            else some (s.move i { r with stage := .orchestrating, setsPersona := true })
          else some (s.move i { r with stage := .orchestrating })
  | .absent =>
      -- the id of the session is unique: the insert waits for another one, and fails once that is committed
      if s.another i fun r => !r.stage.over && r.createsSession then none
      else if s.session.isSome then some (s.move i (r.rollback .failed))
      else some (s.move i { r with stage := .orchestrating, createsSession := true })
  | .looking [] =>
      if s.another i Invoke.holdsSession then none else some (s.move i { r with stage := .counted })
  | .looking (step :: todo) =>
      match s.visible r step.memoryKey with
      | [] => some (s.move i { r with stage := .found none step todo })
      | [row] => some (s.move i { r with stage := .found (some row.id) step todo })
      | _ => some (s.move i (r.rollback .severalFound))
  | .found none step todo =>
      some { s.move i { r with stage := .looking todo, inserted := r.inserted ++ [step.entry s.fresh] } with
        fresh := s.fresh + 1 }
  | .found (some id) step todo =>
      if s.another i (·.holds id) then none
      else some (s.move i { r with stage := .looking todo, overwritten := r.overwritten ++ [(id, step)] })
  | .counted => some (s.commit i r)
  | .orchestrating | .committed | .severalFound | .failed => none

end TeamDb

/-- What happens next. -/
inductive TeamAction
  | invoke (personaId : Option ℕ)
  | advance (i : ℕ)
  /-- The team of a run is done. -/
  | answer (i : ℕ) (workflow : WorkflowState)
  /-- A run breaks off, for whatever reason. -/
  | abort (i : ℕ)

/-- **The runs on a session**, from when nobody has used it. -/
def teamRuns : System TeamDb TeamAction where
  init s := s.session = none ∧ s.memory = [] ∧ s.runs = []
  step s
    | .invoke personaId => some { s with runs := s.runs ++ [{ personaId }] }
    | .advance i => s.runs[i]?.bind (s.advance i)
    | .answer i workflow => s.runs[i]?.bind fun r =>
        if r.stage = .orchestrating then some (s.move i { r with stage := .looking workflow.steps }) else none
    | .abort i => s.runs[i]?.bind fun r =>
        if r.stage.over then none else some (s.move i (r.rollback .failed))

/-! ## One row for each key -/

/-- The committed rows have different keys, and no run has found several rows of one. -/
structure TeamDb.OneRowEach (s : TeamDb) : Prop where
  rows : (s.memory.map (·.memoryKey)).Nodup
  found : ∀ r ∈ s.runs, r.stage ≠ .severalFound

/-- A run that commits inserts no row under a key of which another one has committed a row meanwhile. -/
def TeamDb.Undisturbed (s : TeamDb) : TeamAction → Prop
  | .advance i => ∀ r ∈ s.runs[i]?, r.stage = .counted →
      ∀ row ∈ r.inserted, row.memoryKey ∉ s.memory.map (·.memoryKey)
  | _ => True

instance (s : TeamDb) (a : TeamAction) : Decidable (s.Undisturbed a) := by
  cases a <;> unfold TeamDb.Undisturbed <;> infer_instance

/-- What a run has inserted and has still to store have different keys, and it inserts nothing before its team is
done. -/
structure Invoke.Tidy (r : Invoke) : Prop where
  keys : (r.inserted.map (·.memoryKey) ++ r.todo.map (·.memoryKey)).Nodup
  early : r.stage = .opened ∨ r.stage = .absent ∨ r.stage = .orchestrating → r.inserted = []

/-- All runs are tidy. -/
def TeamDb.Tidy (s : TeamDb) : Prop := ∀ r ∈ s.runs, r.Tidy

section
variable {s t : TeamDb} {i : ℕ} {r r' : Invoke} {stage : InvokeStage}

theorem Invoke.tidy_rollback : (r.rollback stage).todo = [] → (r.rollback stage).Tidy := by
  intro htodo
  refine ⟨?_, fun _ => rfl⟩
  rw [htodo]
  exact List.nodup_nil

/-- The ways a run moves on without committing. -/
inductive Invoke.Moves (s : TeamDb) (r : Invoke) : Invoke → Prop
  | early {r' : Invoke} (h : r.stage = .opened ∨ r.stage = .absent) (hinserted : r'.inserted = r.inserted)
      (hstage : r'.stage = .absent ∨ r'.stage = .orchestrating) : Moves s r r'
  | answered {r' : Invoke} {workflow : WorkflowState} (h : r.stage = .orchestrating)
      (hinserted : r'.inserted = r.inserted) (hstage : r'.stage = .looking workflow.steps) : Moves s r r'
  | looked {existing : Option RowId} {step : WorkflowStepRecord} {todo : List WorkflowStepRecord}
      (h : r.stage = .looking (step :: todo)) : Moves s r { r with stage := .found existing step todo }
  | several {step : WorkflowStepRecord} {todo : List WorkflowStepRecord} (h : r.stage = .looking (step :: todo))
      (hseveral : 1 < (s.visible r step.memoryKey).length) : Moves s r (r.rollback .severalFound)
  | inserted {step : WorkflowStepRecord} {todo : List WorkflowStepRecord} (h : r.stage = .found none step todo) :
      Moves s r { r with stage := .looking todo, inserted := r.inserted ++ [step.entry s.fresh] }
  | updated {id : RowId} {step : WorkflowStepRecord} {todo : List WorkflowStepRecord}
      (h : r.stage = .found (some id) step todo) :
      Moves s r { r with stage := .looking todo, overwritten := r.overwritten ++ [(id, step)] }
  | counted (h : r.stage = .looking []) : Moves s r { r with stage := .counted }
  | failed : Moves s r (r.rollback .failed)

/-- What the next statement of a run can do: move it on without committing, or commit it. -/
theorem advance_cases {i : ℕ} (h : s.advance i r = some t) :
    (∃ r', r.stage ≠ .counted ∧ r.Moves s r' ∧ t.memory = s.memory ∧ t.runs = s.runs.set i r') ∨
      r.stage = .counted ∧ t = s.commit i r := by
  have hmoves {r' : Invoke} (hstage : r.stage ≠ .counted) (hmove : r.Moves s r') (hmemory : t.memory = s.memory)
      (hruns : t.runs = s.runs.set i r') : (∃ r', r.stage ≠ .counted ∧ r.Moves s r' ∧ t.memory = s.memory ∧
        t.runs = s.runs.set i r') ∨ r.stage = .counted ∧ t = s.commit i r :=
    .inl ⟨r', hstage, hmove, hmemory, hruns⟩
  unfold TeamDb.advance at h
  split at h
  · next hstage =>
      have hne : r.stage ≠ .counted := by simp [hstage]
      split at h
      · obtain rfl := Option.some.inj h
        refine hmoves hne ?_ rfl rfl
        exact .early (.inl hstage) rfl (.inl rfl)
      · split at h
        · split at h
          · cases h
          · obtain rfl := Option.some.inj h
            refine hmoves hne ?_ rfl rfl
            exact .early (.inl hstage) rfl (.inr rfl)
        · obtain rfl := Option.some.inj h
          refine hmoves hne ?_ rfl rfl
          exact .early (.inl hstage) rfl (.inr rfl)
  · next hstage =>
      have hne : r.stage ≠ .counted := by simp [hstage]
      split at h
      · cases h
      · split at h
        · obtain rfl := Option.some.inj h
          exact hmoves hne .failed rfl rfl
        · obtain rfl := Option.some.inj h
          refine hmoves hne ?_ rfl rfl
          exact .early (.inr hstage) rfl (.inr rfl)
  · next hstage =>
      split at h
      · cases h
      · obtain rfl := Option.some.inj h
        exact hmoves (by simp [hstage]) (.counted hstage) rfl rfl
  · next step todo hstage =>
      have hne : r.stage ≠ .counted := by simp [hstage]
      split at h
      · obtain rfl := Option.some.inj h
        exact hmoves hne (.looked hstage) rfl rfl
      · obtain rfl := Option.some.inj h
        exact hmoves hne (.looked hstage) rfl rfl
      · next hnone hone =>
          obtain rfl := Option.some.inj h
          refine hmoves hne (.several hstage ?_) rfl rfl
          cases hrows : s.visible r step.memoryKey with
          | nil => exact absurd hrows hnone
          | cons row rows => cases rows with
              | nil => exact absurd hrows (hone row)
              | cons row' rows => simp
  · next step todo hstage =>
      obtain rfl := Option.some.inj h
      exact hmoves (by simp [hstage]) (.inserted hstage) rfl rfl
  · next id step todo hstage =>
      split at h
      · cases h
      · obtain rfl := Option.some.inj h
        exact hmoves (by simp [hstage]) (.updated hstage) rfl rfl
  · next hstage => exact .inr ⟨hstage, (Option.some.inj h).symm⟩
  · cases h
  · cases h
  · cases h
  · cases h

/-- **What a step can do**: open a run, move one on without committing, or commit one. -/
theorem step_cases {a : TeamAction} (h : teamRuns.step s a = some t) :
    (∃ personaId, a = .invoke personaId ∧ t = { s with runs := s.runs ++ [{ personaId }] }) ∨
      (∃ i r r', s.runs[i]? = some r ∧ r.Moves s r' ∧ t.memory = s.memory ∧ t.runs = s.runs.set i r' ∧
        s.Undisturbed a) ∨
      ∃ i r, a = .advance i ∧ s.runs[i]? = some r ∧ r.stage = .counted ∧ t = s.commit i r := by
  cases a with
  | invoke personaId => exact .inl ⟨personaId, rfl, (Option.some.inj h).symm⟩
  | answer i workflow =>
      obtain ⟨r, hr, h⟩ := Option.bind_eq_some_iff.mp h
      obtain ⟨hstage, h⟩ := Option.ite_none_right_eq_some.mp h
      obtain rfl := Option.some.inj h
      refine .inr (.inl ⟨i, r, _, hr, ?_, rfl, rfl, trivial⟩)
      exact .answered hstage rfl rfl
  | abort i =>
      obtain ⟨r, hr, h⟩ := Option.bind_eq_some_iff.mp h
      obtain ⟨-, h⟩ := Option.ite_none_left_eq_some.mp h
      obtain rfl := Option.some.inj h
      exact .inr (.inl ⟨i, r, _, hr, .failed, rfl, rfl, trivial⟩)
  | advance i =>
      obtain ⟨r, hr, hadvance⟩ := Option.bind_eq_some_iff.mp h
      rcases advance_cases hadvance with ⟨r', hstage, hmove, hmemory, hruns⟩ | ⟨hstage, rfl⟩
      · refine .inr (.inl ⟨i, r, r', hr, hmove, hmemory, hruns, ?_⟩)
        intro r'' hr'' hcounted
        obtain rfl : r = r'' := Option.some.inj (hr.symm.trans hr'')
        exact absurd hcounted hstage
      · exact .inr (.inr ⟨i, r, rfl, hr, hstage, rfl⟩)

/-- **A run that moves on stays tidy.** -/
theorem Invoke.Tidy.moves (h : r.Tidy) (hmoves : r.Moves s r') : r'.Tidy := by
  cases hmoves with
  | early hearly hinserted hstage =>
      have hnone : r.inserted = [] := h.early (hearly.imp_right .inl)
      have htodo : r'.todo = [] := by
        unfold todo
        rcases hstage with h | h <;> rw [h]
      refine ⟨?_, fun _ => hinserted.trans hnone⟩
      rw [hinserted, hnone, htodo]
      exact List.nodup_nil
  | @answered _ workflow hold hinserted hstage =>
      have hnone : r.inserted = [] := h.early (.inr (.inr hold))
      refine ⟨?_, fun _ => hinserted.trans hnone⟩
      rw [hinserted, hnone, todo, hstage]
      have hkeys : (workflow.steps.map (·.memoryKey)) =
          (workflow.steps.map (·.role)).map PersonalityRole.memoryKey := by
        rw [List.map_map]
        rfl
      show (workflow.steps.map (·.memoryKey)).Nodup
      rw [hkeys]
      exact workflow.steps_nodup.map PersonalityRole.memoryKey_injective
  | looked hstage =>
      refine ⟨?_, fun hearly => by simp at hearly⟩
      have hkeys := h.keys
      rw [todo, hstage] at hkeys
      exact hkeys
  | several | failed => exact Invoke.tidy_rollback rfl
  | @inserted step todo hstage =>
      refine ⟨?_, fun hearly => by simp at hearly⟩
      have hkeys := h.keys
      rw [Invoke.todo, hstage] at hkeys
      show ((r.inserted ++ [step.entry s.fresh]).map (·.memoryKey) ++ todo.map (·.memoryKey)).Nodup
      rw [List.map_append, List.append_assoc]
      exact hkeys
  | @updated id step todo hstage =>
      refine ⟨?_, fun hearly => by simp at hearly⟩
      have hkeys := h.keys
      rw [Invoke.todo, hstage] at hkeys
      exact hkeys.sublist ((List.Sublist.refl _).append (List.sublist_cons_self _ _))
  | counted hstage =>
      refine ⟨?_, fun hearly => by simp at hearly⟩
      have hkeys := h.keys
      rw [todo, hstage] at hkeys
      exact hkeys

theorem step_tidy {a : TeamAction} (hs : s.Tidy) (h : teamRuns.step s a = some t) : t.Tidy := by
  rcases step_cases h with ⟨personaId, -, rfl⟩ | ⟨i, r, r', hr, hmoves, -, hruns, -⟩ | ⟨i, r, -, hr, hstage, rfl⟩
  · intro r hr
    rcases List.mem_append.mp hr with hold | hnew
    · exact hs r hold
    · rw [List.mem_singleton.mp hnew]
      exact ⟨List.nodup_nil, fun _ => rfl⟩
  · intro q hq
    rw [hruns] at hq
    exact Pool.forall_set hs ((hs r (List.mem_of_getElem? hr)).moves hmoves) q hq
  · refine Pool.forall_set hs ⟨?_, fun hearly => by simp at hearly⟩
    have hkeys := (hs r (List.mem_of_getElem? hr)).keys
    exact hkeys.sublist ((List.Sublist.refl _).append (List.nil_sublist _))

/-- Among rows with different keys, and its own without this one, a run finds one row at most. -/
theorem visible_length_le {step : WorkflowStepRecord} {todo : List WorkflowStepRecord} (hs : s.OneRowEach)
    (hr : r.Tidy) (hstage : r.stage = .looking (step :: todo)) : (s.visible r step.memoryKey).length ≤ 1 := by
  have hkeys := hr.keys
  rw [Invoke.todo, hstage] at hkeys
  have hown : r.inserted.filter (fun row => decide (row.memoryKey = step.memoryKey)) = [] := by
    refine List.filter_eq_nil_iff.mpr fun row hrow hkey => ?_
    have hmem : step.memoryKey ∈ r.inserted.map (·.memoryKey) := by
      rw [← of_decide_eq_true hkey]
      exact List.mem_map_of_mem hrow
    exact List.disjoint_of_nodup_append hkeys hmem (List.mem_map_of_mem List.mem_cons_self)
  have hcount : (s.memory.map (·.memoryKey)).count step.memoryKey ≤ 1 :=
    List.nodup_iff_count_le_one.mp hs.rows step.memoryKey
  unfold TeamDb.visible
  rw [List.filter_append, hown, List.append_nil, ← List.countP_eq_length_filter]
  rw [List.count, List.countP_map] at hcount
  exact hcount

theorem applied_memoryKey (overwritten : List (RowId × WorkflowStepRecord)) (row : TeamMemoryModel) :
    (TeamDb.applied overwritten row).memoryKey = row.memoryKey := by
  unfold TeamDb.applied
  induction overwritten generalizing row with
  | nil => rfl
  | cons update rest ih =>
      rw [List.foldl_cons, ih]
      dsimp only
      split <;> rfl

/-- **A commit keeps the keys of the rows different exactly if none of those it inserts is there already.** -/
theorem commit_rows_iff (hs : (s.memory.map (·.memoryKey)).Nodup) (hr : r.Tidy) :
    ((s.commit i r).memory.map (·.memoryKey)).Nodup ↔
      ∀ row ∈ r.inserted, row.memoryKey ∉ s.memory.map (·.memoryKey) := by
  have hkeys : (s.commit i r).memory.map (·.memoryKey) =
      s.memory.map (·.memoryKey) ++ r.inserted.map (·.memoryKey) := by
    show ((s.memory ++ r.inserted).map _).map _ = _
    rw [List.map_map, List.map_append]
    simp only [Function.comp_def, applied_memoryKey]
  have hinserted : (r.inserted.map (·.memoryKey)).Nodup := (List.nodup_append.mp hr.keys).1
  rw [hkeys, List.nodup_append']
  constructor
  · intro h row hrow hmem
    exact h.2.2 hmem (List.mem_map_of_mem hrow)
  · intro h
    refine ⟨hs, hinserted, fun key hmem hnew => ?_⟩
    obtain ⟨row, hrow, rfl⟩ := List.mem_map.mp hnew
    exact h row hrow hmem

/-- **One step** keeps one row for each key exactly if it is undisturbed. -/
theorem step_oneRowEach {a : TeamAction} (htidy : s.Tidy) (hs : s.OneRowEach) (h : teamRuns.step s a = some t) :
    t.OneRowEach ↔ s.Undisturbed a := by
  rcases step_cases h with
    ⟨personaId, rfl, rfl⟩ | ⟨i, r, r', hr, hmoves, hmemory, hruns, hundisturbed⟩ | ⟨i, r, rfl, hr, hstage, rfl⟩
  · refine iff_of_true ⟨hs.rows, fun r hr => ?_⟩ trivial
    rcases List.mem_append.mp hr with hold | hnew
    · exact hs.found r hold
    · rw [List.mem_singleton.mp hnew]
      exact fun h => nomatch h
  · refine iff_of_true ⟨hmemory ▸ hs.rows, ?_⟩ hundisturbed
    rw [hruns]
    refine Pool.forall_set hs.found ?_
    cases hmoves with
    | early _ _ hstage => rcases hstage with h | h <;> simp [h]
    | answered _ _ hstage => simp [hstage]
    | several hstage hseveral =>
        exact absurd hseveral (visible_length_le hs (htidy r (List.mem_of_getElem? hr)) hstage).not_gt
    | looked | inserted | updated | counted | failed => exact fun h => nomatch h
  · have hrows := commit_rows_iff (i := i) hs.rows (htidy r (List.mem_of_getElem? hr))
    constructor
    · intro ht r' hr' _
      obtain rfl : r = r' := Option.some.inj (hr.symm.trans hr')
      exact hrows.mp ht.rows
    · intro hundisturbed
      exact ⟨hrows.mpr (hundisturbed r hr hstage), Pool.forall_set hs.found fun h => nomatch h⟩

/-- **Throughout a run of the system there is one row for each key exactly if every commit is undisturbed.** -/
theorem oneRowEach_throughout_iff {s₀ : TeamDb} {acts : List TeamAction} (h₀ : teamRuns.init s₀)
    (h : teamRuns.exec s₀ acts = some s) :
    teamRuns.Throughout TeamDb.OneRowEach s₀ acts ↔ teamRuns.Meets TeamDb.Undisturbed s₀ acts := by
  obtain ⟨-, hmemory, hruns⟩ := h₀
  have htidy : s₀.Tidy := by
    intro r hr
    rw [hruns] at hr
    cases hr
  have hone : s₀.OneRowEach := by
    refine ⟨?_, ?_⟩
    · rw [hmemory]
      exact List.nodup_nil
    · rw [hruns]
      exact fun _ hr => absurd hr List.not_mem_nil
  exact System.throughout_iff (I := TeamDb.Tidy)
    (fun _ _ _ ht hP hst => ⟨step_tidy ht hst, step_oneRowEach ht hP hst⟩) htidy hone h

end

/-! ## Overlapping runs -/

def unused : TeamDb := ⟨none, [], [], 0⟩

theorem init_unused : teamRuns.init unused := ⟨rfl, rfl, rfl⟩

/-- A workflow with the specialists of a task that fits nobody. -/
def fallbackWorkflow : WorkflowState :=
  ⟨[⟨.analyst, "facts"⟩, ⟨.executor, "steps"⟩], "summary", by decide, by decide⟩

def creativeWorkflow : WorkflowState := ⟨[⟨.creative, "a story"⟩], "summary", by decide, by decide⟩

/-- The first run on the session, from its start to its commit. -/
def firstRun : List TeamAction :=
  [.invoke none, .advance 0, .advance 0, .answer 0 fallbackWorkflow] ++ List.replicate 8 (.advance 0)

/-- Two runs that start together, with the same specialists as the first. -/
def overlapping : List TeamAction :=
  firstRun ++ [.invoke (some 7), .invoke none, .advance 1, .advance 2, .answer 1 fallbackWorkflow,
    .answer 2 fallbackWorkflow, .advance 1, .advance 2] ++ List.replicate 7 (.advance 1) ++
    List.replicate 7 (.advance 2)

theorem oneRowEach_overlapping : (teamRuns.exec unused overlapping).isSome ∧
    teamRuns.Throughout TeamDb.OneRowEach unused overlapping := by
  have hsome : (teamRuns.exec unused overlapping).isSome = true := by decide +kernel
  obtain ⟨s, hrun⟩ := Option.isSome_iff_exists.mp hsome
  exact ⟨hsome, (oneRowEach_throughout_iff init_unused hrun).mpr (by decide +kernel)⟩

/-- Two runs that start together, with a specialist the session has not had, and a third one after them. -/
def newSpecialist : List TeamAction :=
  firstRun ++ [.invoke none, .invoke none, .advance 1, .advance 2, .answer 1 creativeWorkflow,
    .answer 2 creativeWorkflow, .advance 1, .advance 2] ++ List.replicate 5 (.advance 1) ++
    List.replicate 5 (.advance 2) ++ [.invoke none, .advance 3, .answer 3 creativeWorkflow, .advance 3]

/-- **Both insert the row of the new specialist**, and the third run finds two. -/
theorem upsert_finds_several : ¬ ∀ s, teamRuns.Reachable s → s.OneRowEach := by
  intro hall
  have hex : ((teamRuns.exec unused newSpecialist).any fun s => s.runs.any (·.stage = .severalFound)) = true := by
    decide +kernel
  obtain ⟨s, hrun, hs⟩ := System.exists_of_exec hex
  obtain ⟨r, hr, hstage⟩ := List.any_eq_true.mp hs
  exact (hall s (System.reachable_of_exec init_unused hrun)).found r hr (of_decide_eq_true hstage)

end Persola.Team
