import Persola.City.Cohesion
import Mathlib.Data.List.Dedup

/-!
# `City.Participation` — the participation in a family that has buried members

`cohesion_score` divides the agents of a family that worked on a job by the agents of all members there ever
were. The dead do not work any more, but they are counted.
-/

namespace Persola.City

open Runs
open Agent (AgentId)

/-! ## Who worked on a job -/

namespace Commons

variable {db : Commons} {id : JobId} {family : FamilyId}

/-- The agent wrote an artifact of the job or started one of its runs. -/
def Contributed (db : Commons) (id : JobId) (a : AgentId) : Prop :=
  (∃ artifact ∈ db.artifactsOf id, artifact.createdByAgentId = some a) ∨
    ∃ run ∈ db.runsOf id, run.startedByAgentId = some a

instance (db : Commons) (id : JobId) (a : AgentId) : Decidable (db.Contributed id a) :=
  inferInstanceAs (Decidable (_ ∨ _))

/-- How many of the agents of a family do not participate. -/
def absentees (db : Commons) (family : FamilyId) (id : JobId) : ℕ :=
  (db.memberAgents family).countP fun a => ¬ db.Participates id a

/-- As long as there are no more than 1000 rows of either kind, the score reads them all. -/
theorem participates_iff (hartifacts : (db.artifactsOf id).length ≤ 1000)
    (hruns : (db.runsOf id).length ≤ 1000) (a : AgentId) : db.Participates id a ↔ db.Contributed id a := by
  have hallArtifacts : db.listArtifacts id 1000 = Select.orderBy listing (db.artifactsOf id) :=
    List.take_of_length_le (by rw [Select.length_orderBy]; exact hartifacts)
  have hallRuns : db.listRuns id 1000 = (db.runsOf id).reverse :=
    List.take_of_length_le (by rw [List.length_reverse]; exact hruns)
  unfold Participates Contributed
  rw [hallArtifacts, hallRuns]
  simp only [Select.mem_orderBy, List.mem_reverse]

/-- What is missing of the participation is the share of the absentees. -/
theorem missing_eq (id : JobId) (hsome : db.memberAgents family ≠ []) :
    1 - db.participation family id = db.absentees family id / ((db.memberAgents family).length : ℚ) := by
  have hsize : (0 : ℚ) < (db.memberAgents family).length := by
    exact_mod_cast List.length_pos_iff.mpr hsome
  have hsplit : (db.memberAgents family).length =
      (db.memberAgents family).countP (db.Participates id ·) + db.absentees family id := by
    unfold absentees
    rw [List.length_eq_countP_add_countP (db.Participates id ·)]
    simp only [decide_eq_true_eq]
  have hsplit : ((db.memberAgents family).length : ℚ) =
      (db.memberAgents family).countP (db.Participates id ·) + db.absentees family id := by
    exact_mod_cast hsplit
  unfold participation
  rw [if_neg hsome, eq_div_iff hsize.ne', sub_mul, div_mul_cancel₀ _ hsize.ne', one_mul]
  linarith

/-- A share of less than 19999 in 20000 is less by what an agent more or less makes, and a float of it is less,
too. -/
theorem fl_missing_iff {r : Rounding} (hsome : db.memberAgents family ≠ [])
    (hr : r = .exact ∨ r = .binary64 ∧ (db.memberAgents family).length ≤ 2 ^ 32) :
    2 * 10 ^ 4 * (1 - r.fl (db.participation family id)) ≤ 1 ↔
      20000 * db.absentees family id ≤ (db.memberAgents family).length := by
  have hsize : (0 : ℚ) < (db.memberAgents family).length := by
    exact_mod_cast List.length_pos_iff.mpr hsome
  have hmissing := missing_eq id hsome
  have hcount : 2 * 10 ^ 4 * (1 - db.participation family id) ≤ 1 ↔
      20000 * db.absentees family id ≤ (db.memberAgents family).length := by
    rw [hmissing, ← mul_div_assoc, div_le_one hsize]
    norm_num
    exact_mod_cast Iff.rfl
  rcases hr with rfl | ⟨rfl, hmany⟩
  · exact hcount
  rw [← hcount]
  constructor
  · intro h
    by_contra hmore
    rw [hcount, not_le] at hmore
    have hmore : ((db.memberAgents family).length : ℚ) + 1 ≤ 20000 * db.absentees family id := by
      exact_mod_cast Nat.succ_le_of_lt hmore
    have hmany : ((db.memberAgents family).length : ℚ) ≤ 2 ^ 32 := by exact_mod_cast hmany
    have hstep : 1 / 20000 + 1 / (20000 * 2 ^ 32) ≤ 1 - db.participation family id := by
      rw [hmissing, le_div_iff₀ hsize]
      nlinarith
    obtain ⟨h0, h1⟩ := participation_range db family id
    have hnear := abs_le.mp (Rounding.binary64.near _ (abs_le.mpr ⟨by linarith, h1⟩))
    have htiny : (1 : ℚ) / 2 ^ 54 < 1 / (20000 * 2 ^ 32) := by norm_num
    linarith [hnear.2]
  · intro h
    -- the float of the bound is not below it
    have hbound : (19999/20000 : ℚ) ≤ Binary64.fl (19999/20000) := by decide +kernel
    have hmono := Rounding.binary64.mono (show (19999/20000 : ℚ) ≤ db.participation family id by linarith)
    have hle : (19999/20000 : ℚ) ≤ Rounding.binary64.fl (db.participation family id) := hbound.trans hmono
    linarith

/-- In a family of fewer than 20000 agents nobody may be missing, however floats are rounded. -/
theorem fl_missing_small_iff (r : Rounding) (hsome : db.memberAgents family ≠ [])
    (hsmall : (db.memberAgents family).length < 20000) :
    2 * 10 ^ 4 * (1 - r.fl (db.participation family id)) ≤ 1 ↔
      ∀ a ∈ db.memberAgents family, db.Participates id a := by
  have hsize : (0 : ℚ) < (db.memberAgents family).length := by
    exact_mod_cast List.length_pos_iff.mpr hsome
  have hall : (∀ a ∈ db.memberAgents family, db.Participates id a) ↔ db.absentees family id = 0 := by
    unfold absentees
    rw [List.countP_eq_zero]
    simp only [decide_eq_true_eq, not_not]
  have hmissing := missing_eq id hsome
  rw [hall]
  constructor
  · intro h
    by_contra hne
    have hsome : (1 : ℚ) ≤ db.absentees family id := by exact_mod_cast Nat.one_le_iff_ne_zero.mpr hne
    have hsmall : ((db.memberAgents family).length : ℚ) ≤ 19999 := by exact_mod_cast Nat.lt_succ_iff.mp hsmall
    have hstep : 1 / 19999 ≤ 1 - db.participation family id := by
      rw [hmissing, le_div_iff₀ hsize]
      linarith
    obtain ⟨h0, h1⟩ := participation_range db family id
    have hnear := abs_le.mp (r.near _ (abs_le.mpr ⟨by linarith, h1⟩))
    have htiny : (1 : ℚ) / 2 ^ 54 < 1 / 19999 - 1 / 20000 := by norm_num
    linarith [hnear.2]
  · intro hzero
    rw [hzero, Nat.cast_zero, zero_div, sub_eq_zero] at hmissing
    rw [← hmissing, r.fl_one, sub_self, mul_zero]
    exact zero_le_one

end Commons

section
variable {tiers : ModelTier} {r : Rounding} {db : Commons} {id : JobId} {job : CityJobModel} {score : CohesionScore}

/-- The agents of a family are those of its members. -/
theorem mem_memberAgents {family : FamilyId} {a : AgentId} :
    a ∈ db.memberAgents family ↔ ∃ m ∈ db.membersOf family, m.agentId = a := by
  unfold Commons.memberAgents
  rw [List.mem_dedup, List.mem_map]

/-- A family has agents: somebody heads it. -/
theorem memberAgents_ne_nil (h : db.toStore.Inv) {family : FamilyId} (hfamily : (db.getFamily family).isSome) :
    db.memberAgents family ≠ [] := by
  intro hnil
  have hmembers : db.membersOf family = [] := by
    refine List.eq_nil_iff_forall_not_mem.mpr fun m hm => ?_
    have hmem := mem_memberAgents.mpr ⟨m, hm, rfl⟩
    rw [hnil] at hmem
    cases hmem
  obtain ⟨f, hf⟩ := Option.isSome_iff_exists.mp hfamily
  have hmem : family ∈ db.familyIds := ⟨f, List.mem_of_find?_eq_some hf, Store.getFamily_id hf⟩
  have hhead := h.wellFormed.heads_eq family hmem
  rw [Store.heads_lineage h.tables.vital] at hhead
  unfold Store.livingParents Store.parentRows at hhead
  rw [hmembers] at hhead
  cases hhead

/-- **A family whose living members all worked on a job** participates fully just where not more than one in
    20000 of its agents is without a row among those that the score reads; in floats this is so for every family of
    up to 2^32 agents. For a job within the limits of its queries, in a family of fewer than 20000 agents, the agents
    of the dead have to have worked on it as well, however floats are rounded. -/
theorem participation_iff (h : (system tiers).Reachable db.toStore) (hjob : db.getJob id = some job)
    (hfamily : (db.getFamily job.familyId).isSome)
    (hliving : ∀ m ∈ db.membersOf job.familyId, m.living = true → db.Contributed id m.agentId)
    (hscore : cohesionScore r db id = some score) :
    (r = .exact ∨ r = .binary64 ∧ (db.memberAgents job.familyId).length ≤ 2 ^ 32 →
        (score.participation = 1 ↔
          20000 * db.absentees job.familyId id ≤ (db.memberAgents job.familyId).length)) ∧
      ((db.artifactsOf id).length ≤ 1000 → (db.runsOf id).length ≤ 1000 →
        (db.memberAgents job.familyId).length < 20000 →
          (score.participation = 1 ↔ ∀ m ∈ db.membersOf job.familyId, m.lifeStatus = .deceased →
            db.Contributed id m.agentId)) := by
  have hs := inv_of_reachable h
  have hsome := memberAgents_ne_nil hs hfamily
  obtain ⟨hparticipation, -⟩ := Commons.cohesionScore_eq hjob hscore
  obtain ⟨h0, h1⟩ := Commons.participation_range db job.familyId id
  have hiff : score.participation = 1 ↔
      2 * 10 ^ 4 * (1 - r.fl (db.participation job.familyId id)) ≤ 1 := by
    rw [hparticipation]
    exact r.round_eq_one_iff (by omega) (by omega) (r.fl_nonneg h0) (r.fl_le_one h1)
  refine ⟨fun hr => hiff.trans (Commons.fl_missing_iff hsome hr), fun hartifacts hruns hsmall => ?_⟩
  rw [hiff, Commons.fl_missing_small_iff r hsome hsmall]
  constructor
  · intro hall m hm _
    exact (Commons.participates_iff hartifacts hruns _).mp (hall _ (mem_memberAgents.mpr ⟨m, hm, rfl⟩))
  · intro hdead a ha
    obtain ⟨m, hm, rfl⟩ := mem_memberAgents.mp ha
    rw [Commons.participates_iff hartifacts hruns]
    cases hstatus : m.lifeStatus with
    | alive =>
        have hvital := hs.tables.vital m (Store.mem_membersOf.mp hm).1
        exact hliving m hm (hvital.living_iff.mpr hstatus)
    | deceased => exact hdead m hm hstatus

/-- A job that starts is work on jobs, as far as the city is concerned. -/
theorem startJob_reachable {s t : Session Commons} {family : FamilyId} {district : CityDistrict} {now : Time}
    (h : (system tiers).Reachable s.working.toStore) (hstart : startJob s family district now = some (id, t)) :
    (system tiers).Reachable t.working.toStore := by
  obtain ⟨_, -, hstart⟩ := Option.bind_eq_some_iff.mp hstart
  obtain ⟨-, rfl⟩ := Prod.mk.inj (Option.some.inj hstart)
  exact h.tail (l := .work (s.working.jobs ++ [_])) trivial rfl

/-- The city of a job it has started is reachable. -/
theorem mossJob_reachable {calls : List Call} {s : Session Commons} (h : mossJob calls = some (id, s)) :
    (system ⟨"large", "small"⟩).Reachable s.working.toStore := by
  obtain ⟨r, hr, hstart⟩ := Option.bind_eq_some_iff.mp h
  exact startJob_reachable (System.reachable_of_exec init_emptyCity hr) hstart

end

/-- An agent writes down what it has found. -/
def notes (p : JobId × Session Commons) (agentId : AgentId) : Commons :=
  (workspaceWrite p.2 p.1 (some agentId) "notes.md" (some "done")).2.working

/-- A founder that works on the job of its family, with nobody buried. -/
theorem participation_founder : ∃ id s score, mossJob [] = some (id, s) ∧
    cohesionScore .binary64 (notes (id, s) 1) id = some score ∧ score.participation = 1 := by
  have hex : (mossJob []).any (fun p => ((notes p 1).getJob p.1).any fun job =>
      ((notes p 1).getFamily job.familyId).isSome &&
        ((notes p 1).membersOf job.familyId).all (fun m =>
          (notes p 1).Contributed p.1 m.agentId && m.lifeStatus = .alive) &&
        ((notes p 1).artifactsOf p.1).length ≤ 1000 && ((notes p 1).runsOf p.1).length ≤ 1000 &&
        ((notes p 1).memberAgents job.familyId).length < 20000 &&
        (cohesionScore .binary64 (notes p 1) p.1).isSome) = true := by
    decide +kernel
  obtain ⟨⟨id, s⟩, hstart, hex⟩ := (Option.any_eq_true ..).mp hex
  obtain ⟨job, hjob, hp⟩ := (Option.any_eq_true ..).mp hex
  simp only [Bool.and_eq_true, decide_eq_true_eq, List.all_eq_true] at hp
  obtain ⟨⟨⟨⟨⟨hfamily, hall⟩, hartifacts⟩, hruns⟩, hsmall⟩, hscore⟩ := hp
  obtain ⟨score, hscore⟩ := Option.isSome_iff_exists.mp hscore
  have hreach : (system ⟨"large", "small"⟩).Reachable (notes (id, s) 1).toStore := by
    unfold notes
    rw [workspaceWrite_frame.1]
    exact mossJob_reachable hstart
  obtain ⟨-, hiff⟩ := participation_iff hreach hjob hfamily (fun m hm _ => (hall m hm).1) hscore
  refine ⟨id, s, score, hstart, hscore, (hiff hartifacts hruns hsmall).mpr fun m hm hdead => ?_⟩
  exact absurd ((hall m hm).2.symm.trans hdead) (by decide)

/-- **The heir is all that lives of the family, and its work counts for half of it.** -/
theorem heir_participates_half : ∃ id s score, mossJob [.lifeTick { now := 2 }] = some (id, s) ∧
    (system ⟨"large", "small"⟩).Reachable (notes (id, s) 5).toStore ∧
    (∃ job, (notes (id, s) 5).getJob id = some job ∧ ((notes (id, s) 5).getFamily job.familyId).isSome ∧
      ∀ m ∈ (notes (id, s) 5).membersOf job.familyId, m.living = true →
        (notes (id, s) 5).Contributed id m.agentId) ∧
    cohesionScore .binary64 (notes (id, s) 5) id = some score ∧ score.participation = 1 / 2 := by
  have hex : (mossJob [.lifeTick { now := 2 }]).any (fun p => ((notes p 5).getJob p.1).any (fun job =>
      ((notes p 5).getFamily job.familyId).isSome &&
        ((notes p 5).membersOf job.familyId).all fun m =>
          m.living → (notes p 5).Contributed p.1 m.agentId) &&
      (cohesionScore .binary64 (notes p 5) p.1).any (·.participation = 1 / 2)) = true := by
    decide +kernel
  obtain ⟨⟨id, s⟩, hstart, hex⟩ := (Option.any_eq_true ..).mp hex
  rw [Bool.and_eq_true] at hex
  obtain ⟨job, hjob, hp⟩ := (Option.any_eq_true ..).mp hex.1
  obtain ⟨score, hscore, hhalf⟩ := (Option.any_eq_true ..).mp hex.2
  simp only [Bool.and_eq_true, decide_eq_true_eq, List.all_eq_true] at hp
  have hreach : (system ⟨"large", "small"⟩).Reachable (notes (id, s) 5).toStore := by
    unfold notes
    rw [workspaceWrite_frame.1]
    exact mossJob_reachable hstart
  exact ⟨id, s, score, hstart, hreach, ⟨job, hjob, hp.1, hp.2⟩, hscore, of_decide_eq_true hhalf⟩

end Persola.City
