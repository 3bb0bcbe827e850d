import Persola.Persona.Engine
import Persola.Team.Model
import Mathlib.Data.List.TakeWhile

/-!
# `Team.Router` — who a task is delegated to

A task goes to the specialists one of whose keywords occurs in it, the better fit first. There are four of them and
three places, so the worst is left out when all four fit; when none does, the analyst and the executor are asked
(`selectDelegationPlan_iff`).
-/

namespace Persola.Team

open Persona (Knob)

/-! ## Archetypes -/

/-- `PersonalityArchetype`. -/
structure PersonalityArchetype where
  role : PersonalityRole
  name : String
  tagline : String
  delegationKeywords : List String
  knobOverrides : List (Knob × ℚ)
  collaborationStyle : String
  systemDirective : String

/-- `BUILTIN_ARCHETYPES[role]`. -/
def PersonalityRole.archetype : PersonalityRole → PersonalityArchetype
  | .coordinator => {
      role := .coordinator
      name := "Coordinator"
      tagline := "Keeps the team aligned and synthesizes outcomes."
      delegationKeywords := ["plan", "organize", "coordinate", "summarize", "delegate", "workflow", "roadmap"]
      knobOverrides :=
        [(.conscientiousness, 9/10), (.stepByStep, 85/100), (.verbosity, 55/100), (.agreeableness, 75/100)]
      collaborationStyle := "Facilitates dialogue, assigns work, merges perspectives into one answer."
      systemDirective := "You are the team coordinator. Break work into clear subtasks, delegate to specialists, " ++
        "and produce a cohesive final response that reflects the whole team's input." }
  | .analyst => {
      role := .analyst
      name := "Analyst"
      tagline := "Evidence-first reasoning and structured decomposition."
      delegationKeywords := ["analyze", "data", "compare", "evaluate", "metrics", "research", "why", "evidence"]
      knobOverrides := [(.reasoningDepth, 95/100), (.accuracy, 95/100), (.stepByStep, 9/10), (.abstraction, 6/10)]
      collaborationStyle := "Challenges assumptions with facts and explicit reasoning chains."
      systemDirective := "You are the analyst. Use rigorous reasoning, cite assumptions, and prefer structured " ++
        "breakdowns over speculation." }
  | .creative => {
      role := .creative
      name := "Creative"
      tagline := "Novel angles, metaphors, and exploratory ideation."
      delegationKeywords := ["brainstorm", "creative", "idea", "design", "story", "imagine", "innovate", "brand"]
      knobOverrides := [(.creativity, 95/100), (.creativityInReasoning, 9/10), (.openness, 9/10), (.humor, 55/100)]
      collaborationStyle := "Expands possibility space before the team converges."
      systemDirective := "You are the creative specialist. Propose distinctive options and expressive framing " ++
        "while staying relevant to the user's goal." }
  | .executor => {
      role := .executor
      name := "Executor"
      tagline := "Action-oriented delivery and concrete next steps."
      delegationKeywords := ["implement", "build", "deploy", "execute", "steps", "how to", "run", "fix", "code"]
      knobOverrides := [(.conscientiousness, 85/100), (.verbosity, 45/100), (.reliability, 9/10), (.confidence, 8/10)]
      collaborationStyle := "Turns decisions into executable plans and tool-backed actions."
      systemDirective := "You are the executor. Focus on practical steps, tooling, and deliverables the user " ++
        "can act on immediately." }
  | .empath => {
      role := .empath
      name := "Empath"
      tagline := "Tone, stakeholder impact, and human context."
      delegationKeywords := ["feel", "user", "team", "stakeholder", "tone", "support", "explain", "audience"]
      knobOverrides := [(.empathy, 95/100), (.agreeableness, 9/10), (.transparency, 8/10), (.formality, 45/100)]
      collaborationStyle := "Ensures outputs respect emotional and social context."
      systemDirective := "You are the empath. Shape responses for clarity, warmth, and stakeholder awareness " ++
        "without losing substance." }

/-! ## Scores -/

/-- `kw in text`. -/
def Occurs (kw text : String) : Prop := kw.toList <:+: text.toList

instance (kw text : String) : Decidable (Occurs kw text) := inferInstanceAs (Decidable (_ <:+: _))

/-- `role_floor`. -/
def roleFloor : PersonalityRole → ℚ
  | .coordinator => 15/100
  | _ => 1/10

/-- `score_task_for_personality`, in exact arithmetic. -/
def scoreTaskForPersonality (lower : String → String) (task : String) (archetype : PersonalityArchetype) : ℚ :=
  let text := lower task
  if Py.strip text = "" then 0
  else
    let hits := archetype.delegationKeywords.countP fun kw => Occurs kw text
    let base : ℚ := hits / max archetype.delegationKeywords.length 1
    min 1 (base + roleFloor archetype.role)

/-- The score of a role. -/
def score (lower : String → String) (task : String) (role : PersonalityRole) : ℚ :=
  scoreTaskForPersonality lower task role.archetype

/-! ## Who fits -/

/-- A keyword of the role occurs in the task. -/
def Fits (lower : String → String) (task : String) (role : PersonalityRole) : Prop :=
  ∃ kw ∈ role.archetype.delegationKeywords, Occurs kw (lower task)

/-- The place among the built-in roles. -/
def PersonalityRole.place : PersonalityRole → ℕ
  | .coordinator => 0
  | .analyst => 1
  | .creative => 2
  | .executor => 3
  | .empath => 4

/-- One specialist comes before another: it fits better, or as well and is listed before. -/
def Ahead (lower : String → String) (task : String) (a b : PersonalityRole) : Prop :=
  score lower task b < score lower task a ∨ score lower task b = score lower task a ∧ a.place < b.place

section
variable {lower : String → String} {task : String}

theorem strip_eq_empty {v : String} (h : Py.strip v = "") : ∀ c ∈ v.toList, Py.isSpace c = true := by
  have hdrop : (v.toList.reverse.dropWhile Py.isSpace).reverse.dropWhile Py.isSpace = [] := by
    have htext := congrArg String.toList h
    unfold Py.strip Py.rstrip at htext
    rw [String.toList_ofList, String.toList_ofList] at htext
    exact htext
  intro c hc
  by_contra hspace
  -- the cut on the right leaves `c`, and so does the one on the left
  have hkept {s : List Char} (hs : c ∈ s) : c ∈ s.dropWhile Py.isSpace := by
    rw [← List.takeWhile_append_dropWhile (p := Py.isSpace) (l := s)] at hs
    exact (List.mem_append.mp hs).resolve_left fun hfront => hspace (List.mem_takeWhile_imp hfront)
  have hmem := hkept (List.mem_reverse.mpr (hkept (List.mem_reverse.mpr hc)))
  rw [hdrop] at hmem
  exact List.not_mem_nil hmem

/-- No keyword is blank. -/
theorem keyword_not_blank (role : PersonalityRole) {kw : String} (hkw : kw ∈ role.archetype.delegationKeywords) :
    ∃ c ∈ kw.toList, Py.isSpace c = false := by
  have hall : role.archetype.delegationKeywords.all (fun kw => kw.toList.any fun c => !Py.isSpace c) = true := by
    cases role <;> decide +kernel
  obtain ⟨c, hc, hspace⟩ := List.any_eq_true.mp (List.all_eq_true.mp hall kw hkw)
  exact ⟨c, hc, by simpa using hspace⟩

/-- **A specialist fits** exactly if its score is enough for a place. -/
theorem score_gt_iff {role : PersonalityRole} (hrole : role ≠ .coordinator) :
    12/100 < score lower task role ↔ Fits lower task role := by
  have hcount : 0 < role.archetype.delegationKeywords.countP (fun kw => decide (Occurs kw (lower task))) ↔
      Fits lower task role := by
    rw [List.countP_pos_iff]
    simp only [decide_eq_true_eq, Fits]
  have hlength : role.archetype.delegationKeywords.length = 8 ∨ role.archetype.delegationKeywords.length = 9 := by
    cases role <;> first | exact absurd rfl hrole | decide
  have hfloor : roleFloor role.archetype.role = 1/10 := by
    cases role <;> first | exact absurd rfl hrole | rfl
  unfold score scoreTaskForPersonality
  dsimp only
  rw [hfloor, ← hcount]
  by_cases hblank : Py.strip (lower task) = ""
  · rw [if_pos hblank, hcount]
    refine iff_of_false (by norm_num) ?_
    rintro ⟨kw, hkw, hoccurs⟩
    obtain ⟨c, hc, hspace⟩ := keyword_not_blank role hkw
    rw [strip_eq_empty hblank c (hoccurs.subset hc)] at hspace
    cases hspace
  · rw [if_neg hblank]
    generalize role.archetype.delegationKeywords.countP (fun kw => decide (Occurs kw (lower task))) = hits
    rw [lt_min_iff, and_iff_right (by norm_num)]
    rcases Nat.eq_zero_or_pos hits with rfl | hpos
    · refine iff_of_false ?_ (lt_irrefl 0)
      rw [Nat.cast_zero, zero_div]
      norm_num
    · refine iff_of_true ?_ hpos
      have hcast : (1 : ℚ) ≤ hits := by exact_mod_cast hpos
      rcases hlength with h | h <;> rw [h] <;> norm_num <;> linarith

/-! ## The plan -/

/-- The specialists, the best fit first. -/
theorem ranked_ahead (lower : String → String) (task : String) :
    (Select.orderByDesc (score lower task) (PersonalityRole.builtin.filter (· ≠ .coordinator))).Pairwise
      (Ahead lower task) :=
  @Select.orderByDesc_stable _ _ _ _ _ PersonalityRole.place (by decide)

theorem mem_specialists {role : PersonalityRole} :
    role ∈ PersonalityRole.builtin.filter (· ≠ .coordinator) ↔ role ≠ .coordinator := by
  cases role <;> decide

theorem Ahead.asymm {a b : PersonalityRole} (hab : Ahead lower task a b) : ¬ Ahead lower task b a := by
  rintro (hlt | ⟨heq, hplace⟩) <;> rcases hab with hlt' | ⟨heq', hplace'⟩
  · exact lt_asymm hlt hlt'
  · exact hlt.ne heq'.symm
  · exact hlt'.ne heq.symm
  · exact lt_asymm hplace hplace'

theorem ahead_or {a b : PersonalityRole} (hne : a ≠ b) : Ahead lower task a b ∨ Ahead lower task b a := by
  have hplace : a.place < b.place ∨ b.place < a.place := by
    cases a <;> cases b <;> first | exact absurd rfl hne | decide
  rcases lt_trichotomy (score lower task a) (score lower task b) with hlt | heq | hlt
  · exact .inr (.inl hlt)
  · exact hplace.imp (fun h => .inr ⟨heq.symm, h⟩) fun h => .inr ⟨heq, h⟩
  · exact .inl (.inl hlt)

/-- Who is ahead of one that fits fits too. -/
theorem Ahead.fits {a b : PersonalityRole} (hab : Ahead lower task a b) (ha : a ≠ .coordinator) (hb : b ≠ .coordinator)
    (hfits : Fits lower task b) : Fits lower task a := by
  have hle : score lower task b ≤ score lower task a := hab.elim le_of_lt fun heq => heq.1.le
  exact (score_gt_iff ha).mp (((score_gt_iff hb).mpr hfits).trans_le hle)

/-- **The places** go to all but the worst. -/
theorem mem_routeTask {role : PersonalityRole} : role ∈ routeTask (score lower task) ↔
    role ≠ .coordinator ∧ ∃ worse, worse ≠ .coordinator ∧ Ahead lower task role worse := by
  have hmem {role : PersonalityRole} :
      role ∈ Select.orderByDesc (score lower task) (PersonalityRole.builtin.filter (· ≠ .coordinator)) ↔
        role ≠ .coordinator := Select.mem_orderByDesc.trans mem_specialists
  have hlength : (Select.orderByDesc (score lower task)
      (PersonalityRole.builtin.filter (· ≠ .coordinator))).length - 1 = 3 := by
    rw [(Select.orderByDesc_perm _ _).length_eq]
    decide
  unfold routeTask
  rw [← hlength, ← List.dropLast_eq_take,
    Select.mem_dropLast_iff (ranked_ahead lower task) fun _ _ => Ahead.asymm, hmem]
  simp only [hmem]

/-- The specialists of the places that fit. -/
theorem mem_delegated {role : PersonalityRole} :
    role ∈ (routeTask (score lower task)).filter (fun role => 12/100 < score lower task role) ↔
      role ≠ .coordinator ∧ Fits lower task role ∧ ∃ worse, worse ≠ .coordinator ∧ Ahead lower task role worse := by
  rw [List.mem_filter, decide_eq_true_eq, mem_routeTask, and_assoc]
  refine and_congr_right fun hrole => ?_
  rw [score_gt_iff hrole, and_comm]

/-- Nobody is asked for a fit exactly if nobody fits. -/
theorem delegated_eq_nil_iff :
    (routeTask (score lower task)).filter (fun role => 12/100 < score lower task role) = [] ↔
      ∀ role ≠ .coordinator, ¬ Fits lower task role := by
  rw [List.eq_nil_iff_forall_not_mem]
  simp only [mem_delegated]
  refine ⟨fun hnone role hrole hfits => ?_, fun hnone role hmem => hnone role hmem.1 hmem.2.1⟩
  -- if it is the worst that fits, any other one fits better
  obtain ⟨other, hother, hne⟩ : ∃ other, other ≠ .coordinator ∧ other ≠ role := by
    by_cases ha : role = .analyst
    · exact ⟨.creative, by decide, ha ▸ by decide⟩
    · exact ⟨.analyst, by decide, Ne.symm ha⟩
  rcases @ahead_or lower task _ _ hne with hahead | hahead
  · exact hnone other ⟨hother, hahead.fits hother hrole hfits, role, hrole, hahead⟩
  · exact hnone role ⟨hrole, hfits, other, hother, hahead⟩

/-- Two lists in order with the same members are one. -/
theorem eq_of_ahead {l l' : List PersonalityRole} (hl : l.Pairwise (Ahead lower task))
    (hl' : l'.Pairwise (Ahead lower task)) (hmem : ∀ role, role ∈ l ↔ role ∈ l') : l = l' := by
  have hnodup {l : List PersonalityRole} (hl : l.Pairwise (Ahead lower task)) : l.Nodup := by
    refine hl.imp fun hab heq => ?_
    subst heq
    exact hab.asymm hab
  refine List.Perm.eq_of_pairwise (fun a b _ _ hab hba => absurd hba hab.asymm) hl hl' ?_
  exact (List.perm_ext_iff_of_nodup (hnodup hl) (hnodup hl')).mpr hmem

/-- **Who a task is delegated to**, whatever it says: the specialists it fits, the best first and the worst of them left
out when all four fit; the analyst and the executor when none does. -/
theorem selectDelegationPlan_iff (lower : String → String) (task : String) (plan : List PersonalityRole) :
    selectDelegationPlan (score lower task) = plan ↔
      ((∀ role ≠ .coordinator, ¬ Fits lower task role) ∧ plan = [.analyst, .executor]) ∨
      ((∃ role ≠ .coordinator, Fits lower task role) ∧ plan.Pairwise (Ahead lower task) ∧ ∀ role, role ∈ plan ↔
        role ≠ .coordinator ∧ Fits lower task role ∧
          ∃ worse, worse ≠ .coordinator ∧ Ahead lower task role worse) := by
  have hsorted : ((routeTask (score lower task)).filter fun role => 12/100 < score lower task role).Pairwise
      (Ahead lower task) := (List.Pairwise.take (ranked_ahead lower task)).filter _
  have hsome : (∃ role ≠ .coordinator, Fits lower task role) ↔ ¬ ∀ role ≠ .coordinator, ¬ Fits lower task role := by
    simp only [not_forall, not_not, exists_prop]
  unfold selectDelegationPlan
  dsimp only
  rw [hsome, ← delegated_eq_nil_iff]
  by_cases hnone : (routeTask (score lower task)).filter (fun role => 12/100 < score lower task role) = []
  · rw [if_pos hnone, and_iff_right hnone]
    exact ⟨fun h => .inl h.symm, fun h => (h.resolve_right fun h => h.1 hnone).symm⟩
  · rw [if_neg hnone]
    constructor
    · rintro rfl
      exact .inr ⟨hnone, hsorted, fun role => mem_delegated⟩
    · rintro (h | ⟨-, hplan, hmem⟩)
      · exact absurd h.1 hnone
      · exact eq_of_ahead hsorted hplan fun role => mem_delegated.trans (hmem role).symm

end

end Persola.Team
