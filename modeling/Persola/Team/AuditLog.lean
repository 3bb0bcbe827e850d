import Persola.Team.Story

/-!
# `Team.AuditLog` — what the timeline shows of a run

The rows of a run are in the order in which it made them, other runs write in between, and what is on its way to the log
is lost if the run raises. The invariant is that the rows, the event on its way and what is still to be written are the
story of the run (`TeamRun.Inv`).
-/

namespace Persola.Team

open Runs
open Persona (PersonaProfile)

variable {τ : Type} {lower : String → String} {run run' : TeamRun τ} {rows : List AuditEvent} {s t : Teams τ} {i : ℕ}

/-- The event on its way to the log. -/
@[simp] def RunStage.writing : RunStage τ → Option AuditEvent
  | .instructing event => some event
  | .recording _ writing _ => writing
  | .opened | .working | .returned _ | .raised => none

/-- What is recorded of a run that has not returned: nothing, or its instruction and what some specialists decided. -/
def Begun (lower : String → String) (inv : Invocation τ) (entries : List Entry) : Prop :=
  entries = [] ∨ ∃ (recipient : String) (specialists : List WorkflowStepRecord),
    entries = instruction recipient inv.task (inv.plan lower) ::
      specialists.map (fun step => decision step.role.value step.output) ∧
    (specialists.map (·.role)).Nodup ∧ ∀ step ∈ specialists, step.role ∈ inv.plan lower

/-- What is recorded of a run that has: its instruction and the workflow. -/
def Told (lower : String → String) (inv : Invocation τ) (worked : Worked τ) (entries : List Entry) : Prop :=
  ∃ recipient w, Synthesis lower inv worked w ∧
    entries = instruction recipient inv.task (inv.plan lower) :: w.entries

/-- What is recorded at a stage, the event on its way included. -/
def RunStage.Recorded (lower : String → String) (inv : Invocation τ) (entries : List Entry) : RunStage τ → Prop
  | .opened => entries = []
  | .instructing _ | .working => ∃ recipient, entries = [instruction recipient inv.task (inv.plan lower)]
  | .recording worked writing todo => Told lower inv worked (entries ++ todo) ∧ (writing = none → todo ≠ [])
  | .returned worked => Told lower inv worked entries
  | .raised => Begun lower inv entries

/-- **The rows of a run** and its event on its way: they are its own, in the order of time, and tell how far it is. -/
structure TeamRun.Inv (lower : String → String) (run : TeamRun τ) (rows : List AuditEvent) : Prop where
  own : ∀ e ∈ rows ++ run.stage.writing.toList,
    e.teamId = run.invocation.teamId ∧ e.sessionId = run.invocation.session.sessionId
  times : (rows ++ run.stage.writing.toList).Pairwise fun a b => a.createdAt < b.createdAt
  latest : ∀ e ∈ rows ++ run.stage.writing.toList, e.createdAt ≤ run.lastAt
  recorded : run.stage.Recorded lower run.invocation ((rows ++ run.stage.writing.toList).map (·.entry))

/-- Part of what is told is what has begun. -/
theorem Told.begun {inv : Invocation τ} {worked : Worked τ} {entries rest : List Entry}
    (h : Told lower inv worked (entries ++ rest)) (hrest : rest ≠ []) : Begun lower inv entries := by
  obtain ⟨recipient, w, hw, hstory⟩ := h
  -- the last of the story is the reply, and it is missing
  have hprefix : entries <+: instruction recipient inv.task (inv.plan lower) ::
      w.specialists.map fun step => decision step.role.value step.output := by
    refine ⟨rest.dropLast, ?_⟩
    have hcut := congrArg List.dropLast hstory
    rwa [List.dropLast_append_of_ne_nil hrest, WorkflowState.entries, ← List.cons_append, List.dropLast_concat] at hcut
  rcases List.prefix_cons_iff.mp hprefix with rfl | ⟨decisions, rfl, hdecisions⟩
  · exact .inl rfl
  · have hroles : (w.specialists.map (·.role)).Nodup := hw.delegated.nodup_iff.mpr plan_nodup
    have htake := List.prefix_iff_eq_take.mp hdecisions
    rw [← List.map_take] at htake
    refine .inr ⟨recipient, w.specialists.take decisions.length, congrArg _ htake, ?_, fun step hstep => ?_⟩
    · rw [List.map_take]
      exact hroles.sublist (List.take_sublist _ _)
    · exact hw.delegated.mem_iff.mp (List.mem_map_of_mem (List.mem_of_mem_take hstep))

/-- What is in the log of a run that has not returned. -/
theorem TeamRun.Inv.begun (h : run.Inv lower rows) (hstage : ∀ worked, run.stage ≠ .returned worked) :
    Begun lower run.invocation (rows.map (·.entry)) := by
  have hrecorded := h.recorded
  rw [List.map_append] at hrecorded
  cases hcase : run.stage with
  | opened =>
      rw [hcase] at hrecorded
      exact .inl (List.append_eq_nil_iff.mp hrecorded).1
  | instructing event =>
      rw [hcase] at hrecorded
      obtain ⟨recipient, hentries⟩ := hrecorded
      have hnil : rows.map (·.entry) = [] := by
        have hlength := congrArg List.length hentries
        rw [List.length_append] at hlength
        exact List.length_eq_zero_iff.mp (by simpa [RunStage.writing] using hlength)
      exact .inl hnil
  | working =>
      rw [hcase] at hrecorded
      obtain ⟨recipient, hentries⟩ := hrecorded
      rw [RunStage.writing, Option.toList_none, List.map_nil, List.append_nil] at hentries
      exact .inr ⟨recipient, [], hentries, List.nodup_nil, fun step hstep => by cases hstep⟩
  | recording worked writing todo =>
      rw [hcase] at hrecorded
      obtain ⟨htold, htodo⟩ := hrecorded
      rw [List.append_assoc] at htold
      refine htold.begun fun hnil => ?_
      obtain ⟨hwriting, hnone⟩ := List.append_eq_nil_iff.mp hnil
      refine htodo ?_ hnone
      cases writing with
      | none => rfl
      | some event => cases hwriting
  | returned worked => exact absurd hcase (hstage worked)
  | raised =>
      rw [hcase] at hrecorded
      rwa [RunStage.writing, Option.toList_none, List.map_nil, List.append_nil] at hrecorded

/-! ## One run -/

/-- No event is made, and none is lost. -/
theorem TeamRun.Inv.keep (h : run.Inv lower rows) {rows' : List AuditEvent} {stage : RunStage τ}
    (hall : rows' ++ stage.writing.toList = rows ++ run.stage.writing.toList)
    (hrecorded : stage.Recorded lower run.invocation ((rows ++ run.stage.writing.toList).map (·.entry))) :
    TeamRun.Inv lower { run with stage := stage } rows' := by
  constructor
  · dsimp only
    rw [hall]
    exact h.own
  · dsimp only
    rw [hall]
    exact h.times
  · dsimp only
    rw [hall]
    exact h.latest
  · dsimp only
    rw [hall]
    exact hrecorded

/-- An event is made, later than those before. -/
theorem TeamRun.Inv.write (h : run.Inv lower rows) {stage : RunStage τ} {entry : Entry} {now : ℕ}
    (hnone : run.stage.writing = none) (hwriting : stage.writing = some (run.event entry now))
    (hlater : ∀ e ∈ rows, e.createdAt < now)
    (hrecorded : stage.Recorded lower run.invocation (rows.map (·.entry) ++ [entry])) :
    TeamRun.Inv lower { run with stage := stage, lastAt := now } rows := by
  have hown := h.own
  have htimes := h.times
  rw [hnone, Option.toList_none, List.append_nil] at hown htimes
  constructor
  · dsimp only
    rw [hwriting, Option.toList_some, List.forall_mem_append]
    exact ⟨hown, fun e he => List.mem_singleton.mp he ▸ ⟨rfl, rfl⟩⟩
  · dsimp only
    rw [hwriting, Option.toList_some, List.pairwise_append]
    exact ⟨htimes, List.pairwise_singleton _ _, fun e he e' he' => List.mem_singleton.mp he' ▸ hlater e he⟩
  · dsimp only
    rw [hwriting, Option.toList_some, List.forall_mem_append]
    exact ⟨fun e he => (hlater e he).le, fun e he => List.mem_singleton.mp he ▸ le_rfl⟩
  · dsimp only
    rw [hwriting, Option.toList_some, List.map_append]
    exact hrecorded

/-- **Step lemma**: a run that goes on stays in step with its rows. -/
theorem TeamRun.Inv.step (h : run.Inv lower rows) {event : RunEvent τ} {committed : Option AuditEvent}
    (hstep : run.step lower event = some (run', committed)) : run'.Inv lower (rows ++ committed.toList) := by
  have hrecorded := h.recorded
  cases event with
  | instruct top now =>
      simp only [TeamRun.step] at hstep
      split at hstep
      · next hopened =>
          obtain ⟨rfl, rfl⟩ := Prod.mk.inj (Option.some.inj hstep)
          rw [hopened] at hrecorded
          have hrows : rows = [] := (List.append_eq_nil_iff.mp (List.map_eq_nil_iff.mp hrecorded)).1
          rw [Option.toList_none, List.append_nil]
          refine h.write (by simp [hopened]) rfl (fun e he => ?_) ⟨top.getD PersonalityRole.coordinator.value, ?_⟩
          · rw [hrows] at he
            cases he
          · rw [hrows]
            rfl
      · cases hstep
  | commit =>
      simp only [TeamRun.step] at hstep
      split at hstep
      · next e hcase =>
          obtain ⟨rfl, rfl⟩ := Prod.mk.inj (Option.some.inj hstep)
          rw [hcase] at hrecorded
          refine h.keep (by simp [hcase]) ?_
          rw [hcase]
          exact hrecorded
      · next worked e hcase =>
          obtain ⟨rfl, rfl⟩ := Prod.mk.inj (Option.some.inj hstep)
          rw [hcase] at hrecorded
          refine h.keep (by simp [hcase]) ?_
          rw [hcase]
          obtain ⟨htold, -⟩ := hrecorded
          rwa [List.append_nil] at htold
      · next worked e entry todo hcase =>
          obtain ⟨rfl, rfl⟩ := Prod.mk.inj (Option.some.inj hstep)
          rw [hcase] at hrecorded
          refine h.keep (by simp [hcase]) ?_
          rw [hcase]
          exact ⟨hrecorded.1, fun _ => List.cons_ne_nil _ _⟩
      · cases hstep
  | work work =>
      simp only [TeamRun.step] at hstep
      split at hstep
      · next hcase =>
          obtain ⟨worked, hpath, heq⟩ := Option.map_eq_some_iff.mp hstep
          obtain ⟨rfl, rfl⟩ := Prod.mk.inj heq
          rw [hcase] at hrecorded
          obtain ⟨recipient, hentries⟩ := hrecorded
          obtain ⟨w, hw⟩ := path_synthesis hpath
          rw [Option.toList_none, List.append_nil]
          refine h.keep (by simp [hcase]) ⟨⟨recipient, w, hw, ?_⟩, fun _ => ?_⟩
          · rw [hcase, hentries, hw.entries]
            rfl
          · rw [hw.entries]
            exact List.append_ne_nil_of_right_ne_nil _ (List.cons_ne_nil _ _)
      · cases hstep
  | record now =>
      simp only [TeamRun.step] at hstep
      split at hstep
      · next worked entry todo hcase =>
          obtain ⟨hnow, hsome⟩ := Option.ite_none_right_eq_some.mp hstep
          obtain ⟨rfl, rfl⟩ := Prod.mk.inj (Option.some.inj hsome)
          rw [hcase] at hrecorded
          have hlater : ∀ e ∈ rows, e.createdAt < now :=
            fun e he => (h.latest e (List.mem_append_left _ he)).trans_lt hnow
          rw [Option.toList_none, List.append_nil]
          refine h.write (by simp [hcase]) rfl hlater ⟨?_, fun hn => ?_⟩
          · obtain ⟨htold, -⟩ := hrecorded
            simpa using htold
          · cases hn
      · cases hstep
  | raises =>
      have hraised (hstage : ∀ worked, run.stage ≠ .returned worked) :
          TeamRun.Inv lower { run with stage := .raised } rows := by
        constructor
        · intro e he
          exact h.own e (List.mem_append_left _ (by simpa [RunStage.writing] using he))
        · have htimes := (List.pairwise_append.mp h.times).1
          simpa [RunStage.writing] using htimes
        · intro e he
          exact h.latest e (List.mem_append_left _ (by simpa [RunStage.writing] using he))
        · have hbegun := h.begun hstage
          simpa [RunStage.writing, RunStage.Recorded] using hbegun
      simp only [TeamRun.step] at hstep
      split at hstep
      · cases hstep
      · cases hstep
      · next hreturned _ =>
          obtain ⟨rfl, rfl⟩ := Prod.mk.inj (Option.some.inj hstep)
          rw [Option.toList_none, List.append_nil]
          exact hraised hreturned

/-! ## All runs -/

/-- The rows of a run, in the order of the log. -/
def Teams.rowsOf (s : Teams τ) (i : ℕ) : List AuditEvent := (s.log.filter (·.1 = i)).map (·.2)

/-- Every row is a run's, and every run is in step with its rows. -/
structure Teams.Inv (lower : String → String) (s : Teams τ) : Prop where
  known : ∀ row ∈ s.log, row.1 < s.runs.length
  runs : ∀ (i : ℕ) (run : TeamRun τ), s.runs[i]? = some run → run.Inv lower (s.rowsOf i)

theorem Teams.Inv.step (h : s.Inv lower) {label : Label τ} (ht : (teams lower).step s label = some t) :
    t.Inv lower := by
  cases label with
  | invoke invocation =>
      obtain rfl := Option.some.inj ht
      constructor
      · intro row hrow
        rw [List.length_append]
        exact (h.known row hrow).trans_le (Nat.le_add_right _ _)
      · intro i run hrun
        by_cases hi : i < s.runs.length
        · rw [List.getElem?_append_left hi] at hrun
          exact h.runs i run hrun
        · -- nothing is written by a run that is new
          have hrows : s.rowsOf i = [] := by
            unfold Teams.rowsOf
            rw [List.map_eq_nil_iff, List.filter_eq_nil_iff]
            exact fun row hrow heq => hi (of_decide_eq_true heq ▸ h.known row hrow)
          rw [List.getElem?_append_right (not_lt.mp hi)] at hrun
          obtain rfl := List.mem_singleton.mp (List.mem_of_getElem? hrun)
          show TeamRun.Inv lower { invocation := invocation } (s.rowsOf i)
          rw [hrows]
          exact ⟨fun e he => (by cases he), List.Pairwise.nil, fun e he => (by cases he), rfl⟩
  | run i event =>
      obtain ⟨run, hrun, hrest⟩ := Option.bind_eq_some_iff.mp ht
      obtain ⟨⟨run', committed⟩, hstep, heq⟩ := Option.bind_eq_some_iff.mp hrest
      obtain rfl := Option.some.inj heq
      have hi := (List.getElem?_eq_some_iff.mp hrun).1
      constructor
      · intro row hrow
        dsimp only
        rw [List.length_set]
        rcases List.mem_append.mp hrow with hrow | hrow
        · exact h.known row hrow
        · cases committed with
          | none => cases hrow
          | some e => exact List.mem_singleton.mp hrow ▸ hi
      · intro j other hother
        dsimp only at hother
        by_cases hij : i = j
        · subst hij
          rw [List.getElem?_set_self hi] at hother
          obtain rfl := Option.some.inj hother
          have hrows : Teams.rowsOf ⟨s.runs.set i run', s.log ++ (committed.map (i, ·)).toList⟩ i =
              s.rowsOf i ++ committed.toList := by
            unfold Teams.rowsOf
            rw [List.filter_append, List.map_append]
            cases committed with
            | none => rfl
            | some e => simp
          rw [hrows]
          exact (h.runs i run hrun).step hstep
        · rw [List.getElem?_set_ne hij] at hother
          have hrows : Teams.rowsOf ⟨s.runs.set i run', s.log ++ (committed.map (i, ·)).toList⟩ j = s.rowsOf j := by
            unfold Teams.rowsOf
            rw [List.filter_append]
            cases committed with
            | none => simp
            | some e => simp [hij]
          rw [hrows]
          exact h.runs j other hother

theorem inv_of_reachable (hs : (teams lower).Reachable s) : s.Inv lower := by
  refine hs.invariant (fun t ht => ?_) fun t label u hI _ hu => hI.step hu
  obtain ⟨hruns, hlog⟩ := ht
  constructor
  · intro row hrow
    rw [hlog] at hrow
    cases hrow
  · intro i run hrun
    rw [hruns] at hrun
    cases hrun

/-- A profile with everything in the middle. -/
def plainProfile : PersonaProfile where
  name := "Team Default"
  description := ""
  knobs _ := 1/2
  systemPrompt := ""
  model := "llama3:8b"
  temperature := 7/10
  maxTokens := 2000
  valid := by decide +kernel

/-- The same task on either path. -/
def dataTask (useLanggraph : Bool) : Invocation ℕ := ⟨plainProfile, useLanggraph, "data", { sessionId := "s" }⟩

/-- The analyst answers, with a tool. -/
def answered : List (ℕ × Workflow.Event ℕ) := [(0, .call), (0, .answer "one"), (0, .toolCalls [7])]

end Persola.Team
