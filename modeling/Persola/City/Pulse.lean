import Persola.City.Ecosystem
import Persola.City.Waves
import Persola.Tools.Calls

/-!
# `City.Pulse` — the plan of a pulse, with its texts

`pick_agent_for_district`, `district_tool_calls`, `support_note_call` and `multi_contributor_plan` on members as the
API shows them; in `City.Waves` the same plan is made of rows, and its calls are without their texts
(`multiContributorPlan_rows`). What is proved is who gets a batch of the plan, and for what (`plan_wellPlanned`).
-/

namespace Persola.City.Pulse

open Agent (AgentId)

/-- `str.lower` and `str.title`, which depend on the version of Unicode that the interpreter has. -/
structure Casing where
  lower : String → String
  title : String → String

/-- `str.title` on ASCII: a letter after a letter is small. -/
def titleChars : Bool → List Char → List Char
  | _, [] => []
  | inWord, c :: s => (if inWord then c.toLower else c.toUpper) :: titleChars c.isAlpha s

/-- What the two do with texts in ASCII. -/
def asciiCasing : Casing := ⟨lower, fun s => String.ofList (titleChars false s.toList)⟩

example : asciiCasing.title "analyst" = "Analyst" := by decide

/-! ## Who works -/

/-- `DISTRICT_ROLE_PREFERENCE.get(district, …)`. -/
def districtRolePreference (district : String) : List String :=
  match district with
  | "build" => ["executor", "builder", "coordinator"]
  | "viz" => ["creative", "empath", "builder"]
  | "research" => ["analyst", "coordinator", "creative"]
  | "ops" => ["executor", "coordinator", "builder"]
  | _ => ["executor", "coordinator"]

/-- `by_role`: of the members with a label, by their labels. -/
def byRole (members : List SerializedMember) : List (String × SerializedMember) :=
  Py.assign [] (members.filterMap fun m => (m.roleLabel.filter (· ≠ "")).map (·, m))

/-- `pick_agent_for_district`. -/
def pickAgentForDistrict (members : List SerializedMember) (district : String) : Option SerializedMember :=
  let pool := livingMembers members
  ((districtRolePreference district).findSome? (Py.getItem (byRole pool))).or
    ((pool.find? (·.roleInFamily = .child)).or pool.head?)

/-! ## What they do -/

section
variable {ν : Type*} (casing : Casing)

/-- What is kept of the text for a family: up to 32 characters, in small letters and with hyphens for blanks. -/
def keptText (familySlug : String) : String :=
  truncate 32 (casing.lower (String.ofList (familySlug.toList.map fun c => if c = ' ' then '-' else c)))

/-- `_slug`. -/
def slug (familySlug : String) : String := Py.orElse (some (keptText casing familySlug)) "family"

/-- A call of `workspace_write`. -/
def workspaceWrite (path content : String) : Tools.ToolCall ν :=
  ⟨"workspace_write", [("path", .str path), ("content", .str content)]⟩

/-- A call of `run_python`. -/
def runPython (path : String) : Tools.ToolCall ν := ⟨"run_python", [("path", .str path)]⟩

/-- A call of `emit_viz_event` for a pulse. -/
def vizPulse (district family mood : String) : Tools.ToolCall ν :=
  ⟨"emit_viz_event", [("event_type", .str "viz.pulse"),
    ("payload", .obj [("district", .str district), ("family", .str family), ("mood", .str mood)])]⟩

/-- The JSON that is written in the viz district. -/
def vizContent (slug : String) : String :=
  "\x7b\"kind\":\"city-viz\",\"family\":\"" ++ slug ++
    "\",\"palette\":[\"teal\",\"violet\",\"amber\"],\"nodes\":\"lineage\"\x7d\n"

/-- The script that is written in the ops district. -/
def opsScript (slug : String) : String :=
  "print(\"ops-ok\")\nprint(\"family\", \"" ++ slug ++ "\")\nprint(\"checks\", 3)\n"

/-- The script that is written in the build district. -/
def buildScript (slug : String) : String :=
  "print(\"city-pulse-build\")\nprint(\"family\", \"" ++ slug ++ "\")\nprint(\"sum\", 2 + 2)\n"

/-- `district_tool_calls`. -/
def districtToolCalls (district familySlug : String) : List (Tools.ToolCall ν) :=
  let slug := slug casing familySlug
  match casing.lower (Py.orElse (some district) "build") with
  | "viz" => [workspaceWrite ("viz/" ++ slug ++ ".json") (vizContent slug), vizPulse "viz" slug "radiant"]
  | "research" =>
      [workspaceWrite ("research/" ++ slug ++ ".md")
        ("# Research — " ++ slug ++ "\n\nFindings: cohesion rises when siblings share the commons.\n" ++
          "Next: compare district latency under pulse load.\n"),
        vizPulse "research" slug "curious"]
  | "ops" =>
      [workspaceWrite ("ops/" ++ slug ++ "_health.py") (opsScript slug), runPython ("ops/" ++ slug ++ "_health.py")]
  | _ => [workspaceWrite ("build/" ++ slug ++ ".py") (buildScript slug), runPython ("build/" ++ slug ++ ".py")]

/-- `support_note_call`. -/
def supportNoteCall (role familySlug district : String) : Tools.ToolCall ν :=
  let slug := slug casing familySlug
  workspaceWrite ("notes/" ++ slug ++ "_" ++ role ++ ".md")
    ("# " ++ casing.title role ++ " note — " ++ slug ++ "\nDistrict: " ++ district ++ "\nI contributed as " ++ role ++
      " so the family commons stays cohesive.\n")

/-! ## The plan -/

/-- A batch of a plan. -/
structure Batch (ν : Type*) where
  agentId : Option AgentId
  roleLabel : Option String
  calls : List (Tools.ToolCall ν)

/-- The batch of a support role, if a member other than the lead is there for it. -/
def supportBatch (index : List (String × SerializedMember)) (lead : Option SerializedMember)
    (district familySlug role : String) : Option (Batch ν) :=
  match Py.getItem index role with
  | none => none
  | some member =>
      if lead.any (member.agentId = ·.agentId) then none
      else some ⟨member.agentId, some role, [supportNoteCall casing role familySlug district]⟩

/-- `multi_contributor_plan`. -/
def multiContributorPlan (members : List SerializedMember) (district familySlug : String) : List (Batch ν) :=
  let pool := livingMembers members
  let index := byRole (pool.filter (·.agentId.isSome))
  let lead := pickAgentForDistrict pool district
  let batches := supportRoles.filterMap (supportBatch casing index lead district familySlug)
  match lead.filter (·.agentId.isSome) with
  | some lead => batches ++ [⟨lead.agentId, lead.roleLabel, districtToolCalls casing district familySlug⟩]
  | none => batches ++ pool.head?.toList.map fun m =>
      ⟨m.agentId, m.roleLabel, districtToolCalls casing district familySlug⟩

end

/-! ## The member for a role, and the lead -/

variable {members : List SerializedMember} {district familySlug role : String} {m lead : SerializedMember}

/-- The last member with the label. -/
def lastWith (members : List SerializedMember) (role : String) : Option SerializedMember :=
  (members.filter (·.roleLabel = some role)).getLast?

theorem mem_of_lastWith (h : lastWith members role = some m) : m ∈ members ∧ m.roleLabel = some role := by
  have hmem := List.mem_of_getLast? h
  rw [List.mem_filter, decide_eq_true_eq] at hmem
  exact hmem

/-- The dictionary holds the last member with the label. -/
theorem getItem_byRole (hrole : role ≠ "") : Py.getItem (byRole members) role = lastWith members role := by
  have hentries : (members.filterMap fun m => (m.roleLabel.filter (· ≠ "")).map (·, m)).filter (·.1 = role) =
      (members.filter (·.roleLabel = some role)).map (role, ·) := by
    induction members with
    | nil => rfl
    | cons m members ih =>
        rw [List.filterMap_cons, List.filter_cons]
        cases hlabel : m.roleLabel with
        | none => simpa using ih
        | some label =>
            by_cases hlabel : label = role
            · subst hlabel
              simpa [Option.filter_some, hrole] using ih
            · by_cases hempty : label = ""
              · simpa [Option.filter_some, hempty, Ne.symm hrole] using ih
              · simpa [Option.filter_some, hempty, hlabel] using ih
  unfold byRole lastWith
  rw [Py.getItem_assign, hentries, List.getLast?_map, Option.map_map]
  simp [Py.getItem, Function.comp_def]

theorem livingMembers_livingMembers : livingMembers (livingMembers members) = livingMembers members := by
  unfold livingMembers
  rw [List.filter_filter]
  simp

/-- The lead is a living member. -/
theorem mem_of_pickAgentForDistrict (h : pickAgentForDistrict members district = some m) :
    m ∈ livingMembers members := by
  unfold pickAgentForDistrict at h
  rcases Option.or_eq_some_iff.mp h with h | ⟨-, h⟩
  · obtain ⟨role, hrole, hget⟩ := List.exists_of_findSome?_eq_some h
    have hnonempty : role ≠ "" := by
      rintro rfl
      revert hrole
      unfold districtRolePreference
      split <;> decide
    rw [getItem_byRole hnonempty] at hget
    exact (mem_of_lastWith hget).1
  · rcases Option.or_eq_some_iff.mp h with h | ⟨-, h⟩
    · exact List.mem_of_find?_eq_some h
    · exact List.mem_of_head? h

/-- Some member is the lead if any is living. -/
theorem exists_pickAgentForDistrict (h : livingMembers members ≠ []) :
    ∃ m, pickAgentForDistrict members district = some m := by
  obtain ⟨m, pool, hpool⟩ := List.exists_cons_of_ne_nil h
  refine Option.isSome_iff_exists.mp ?_
  unfold pickAgentForDistrict
  dsimp only
  rw [hpool, List.head?_cons, Option.isSome_or, Option.isSome_or, Option.isSome_some, Bool.or_true, Bool.or_true]

/-! ## Who gets a batch -/

section
variable {ν : Type*} {casing : Casing}

theorem supportBatch_eq_some {index : List (String × SerializedMember)} {lead : Option SerializedMember}
    {b : Batch ν} : supportBatch casing index lead district familySlug role = some b ↔
      ∃ m, Py.getItem index role = some m ∧ (∀ l ∈ lead, m.agentId ≠ l.agentId) ∧
        b = ⟨m.agentId, some role, [supportNoteCall casing role familySlug district]⟩ := by
  unfold supportBatch
  cases hget : Py.getItem index role with
  | none => simp
  | some m =>
      cases lead with
      | none => simp [eq_comm]
      | some l =>
          by_cases hlead : m.agentId = l.agentId
          · simp [hlead]
          · simp [hlead, eq_comm]

/-- The work of a pulse is planned well: who gets a batch of the plan, and for what. -/
structure WellPlanned (casing : Casing) (members : List SerializedMember) (district familySlug : String)
    (plan : List (Batch ν)) : Prop where
  living : ∀ b ∈ plan, ∃ m ∈ livingMembers members, m.agentId = b.agentId ∧ m.roleLabel = b.roleLabel
  once : (plan.map (·.agentId)).Nodup
  empty_iff : plan = [] ↔ livingMembers members = []
  /-- The last batch, and no other, has the calls of the district. -/
  lead : livingMembers members ≠ [] → ∃ lead notes, pickAgentForDistrict members district = some lead ∧
    plan = notes ++ [⟨lead.agentId, lead.roleLabel, districtToolCalls casing district familySlug⟩] ∧
    (∀ b ∈ notes, b.calls ≠ districtToolCalls casing district familySlug) ∧
    -- the others are the notes of the support roles, each by the last member listed with the role
    (∀ b ∈ notes, ∃ role ∈ supportRoles, b.roleLabel = some role) ∧
    ∀ role ∈ supportRoles, notes.filter (·.roleLabel = some role) =
      ((lastWith (livingMembers members) role).filter (· ≠ lead)).toList.map fun m =>
        ⟨m.agentId, some role, [supportNoteCall casing role familySlug district]⟩

/-- The notes of a plan. -/
def noteBatches (casing : Casing) (members : List SerializedMember) (lead : SerializedMember)
    (district familySlug : String) : List (Batch ν) :=
  supportRoles.filterMap (supportBatch casing (byRole (livingMembers members)) (some lead) district familySlug)

theorem mem_livingMembers (h : m ∈ livingMembers members) : m ∈ members := (List.mem_filter.mp h).1

theorem plan_of_lead (hids : ∀ m ∈ members, m.agentId.isSome)
    (h : pickAgentForDistrict members district = some lead) :
    multiContributorPlan (ν := ν) casing members district familySlug =
      noteBatches casing members lead district familySlug ++
        [⟨lead.agentId, lead.roleLabel, districtToolCalls casing district familySlug⟩] := by
  have hpool : (livingMembers members).filter (·.agentId.isSome) = livingMembers members :=
    List.filter_eq_self.mpr fun m hm => hids m (mem_livingMembers hm)
  have hlead : pickAgentForDistrict (livingMembers members) district = some lead := by
    unfold pickAgentForDistrict at h ⊢
    rw [livingMembers_livingMembers]
    exact h
  have hsome := hids lead (mem_livingMembers (mem_of_pickAgentForDistrict h))
  unfold multiContributorPlan noteBatches
  simp only [hpool, hlead, Option.filter_some, hsome, if_true]

theorem plan_of_nobody (h : livingMembers members = []) :
    multiContributorPlan (ν := ν) casing members district familySlug = [] := by
  have hlead : pickAgentForDistrict [] district = none := by
    cases hpick : pickAgentForDistrict [] district with
    | none => rfl
    | some m => exact absurd (mem_of_pickAgentForDistrict hpick) List.not_mem_nil
  unfold multiContributorPlan
  rw [h]
  simp only [List.filter_nil, hlead]
  rfl

theorem supportRole_ne_empty (h : role ∈ supportRoles) : role ≠ "" := by
  rintro rfl
  revert h
  decide

theorem mem_noteBatches {b : Batch ν} : b ∈ noteBatches casing members lead district familySlug ↔
    ∃ role ∈ supportRoles, ∃ m, lastWith (livingMembers members) role = some m ∧ m.agentId ≠ lead.agentId ∧
      b = ⟨m.agentId, some role, [supportNoteCall casing role familySlug district]⟩ := by
  unfold noteBatches
  rw [List.mem_filterMap]
  refine exists_congr fun role => and_congr_right fun hrole => ?_
  rw [supportBatch_eq_some, getItem_byRole (supportRole_ne_empty hrole)]
  simp

/-- The agents of the notes differ, as their members have different labels. -/
theorem noteBatches_nodup (hnodup : (members.map (·.agentId)).Nodup) :
    ((noteBatches (ν := ν) casing members lead district familySlug).map (·.agentId)).Nodup := by
  unfold noteBatches
  rw [List.Nodup, List.pairwise_map, List.pairwise_filterMap]
  have hroles : supportRoles.Nodup := by decide
  refine hroles.imp_of_mem fun {role role'} hrole hrole' hne b hb b' hb' hid => ?_
  rw [supportBatch_eq_some, getItem_byRole (supportRole_ne_empty ‹_›)] at hb hb'
  obtain ⟨m, hm, -, rfl⟩ := hb
  obtain ⟨m', hm', -, rfl⟩ := hb'
  have hmem := mem_of_lastWith hm
  have hmem' := mem_of_lastWith hm'
  obtain rfl : m = m' :=
    List.inj_on_of_nodup_map hnodup (mem_livingMembers hmem.1) (mem_livingMembers hmem'.1) hid
  exact hne (Option.some.inj (hmem.2.symm.trans hmem'.2))

/-- What one entry of a list gives. -/
theorem filter_filterMap {α β : Type*} {l : List α} {f : α → Option β} {p : β → Bool} {a : α} (hl : l.Nodup)
    (ha : a ∈ l) (hp : ∀ a' b, f a' = some b → (p b = true ↔ a' = a)) : (l.filterMap f).filter p = (f a).toList := by
  have hothers (l : List α) (hl : a ∉ l) : (l.filterMap f).filter p = [] := by
    refine List.filter_eq_nil_iff.mpr fun b hb hpb => ?_
    obtain ⟨a', ha', hf⟩ := List.mem_filterMap.mp hb
    obtain rfl := (hp a' b hf).mp hpb
    exact hl ha'
  induction l with
  | nil => cases ha
  | cons a' l ih =>
      obtain ⟨hnew, hl⟩ := List.nodup_cons.mp hl
      rw [List.filterMap_cons]
      rcases List.mem_cons.mp ha with rfl | ha
      · cases hf : f a with
        | none => exact hothers l hnew
        | some b => simp [(hp a b hf).mpr rfl, hothers l hnew]
      · have hne : a' ≠ a := fun heq => hnew (heq ▸ ha)
        cases hf : f a' with
        | none => exact ih hl ha
        | some b =>
            have hpb : ¬ p b = true := fun hpb => hne ((hp a' b hf).mp hpb)
            exact (List.filter_cons_of_neg hpb).trans (ih hl ha)

/-- A support role has one note, by the last member with its label, or none if that is the lead. -/
theorem noteBatches_filter (hnodup : (members.map (·.agentId)).Nodup) (hlead : lead ∈ members)
    (hrole : role ∈ supportRoles) :
    (noteBatches (ν := ν) casing members lead district familySlug).filter (·.roleLabel = some role) =
      ((lastWith (livingMembers members) role).filter (· ≠ lead)).toList.map fun m =>
        ⟨m.agentId, some role, [supportNoteCall casing role familySlug district]⟩ := by
  have hlabel : ∀ role' (b : Batch ν),
      supportBatch casing (byRole (livingMembers members)) (some lead) district familySlug role' = some b →
        (decide (b.roleLabel = some role) = true ↔ role' = role) := by
    intro role' b hb
    obtain ⟨_, -, -, rfl⟩ := supportBatch_eq_some.mp hb
    simp
  unfold noteBatches
  rw [filter_filterMap (by decide) hrole hlabel]
  unfold supportBatch
  rw [getItem_byRole (supportRole_ne_empty hrole)]
  cases hlast : lastWith (livingMembers members) role with
  | none => rfl
  | some m =>
      have hm := mem_livingMembers (mem_of_lastWith hlast).1
      by_cases hsame : m = lead
      · subst hsame
        simp
      · have hid : m.agentId ≠ lead.agentId := fun hid => hsame (List.inj_on_of_nodup_map hnodup hm hlead hid)
        simp [Option.filter_some, hid, hsame]

/-- A district has two calls, a note one. -/
theorem districtToolCalls_length : (districtToolCalls (ν := ν) casing district familySlug).length = 2 := by
  unfold districtToolCalls
  dsimp only
  split <;> rfl

/-- **The plan of a pulse**: the living members for the support roles leave notes, and the lead works. -/
theorem plan_wellPlanned (casing : Casing) (district familySlug : String) (hids : ∀ m ∈ members, m.agentId.isSome)
    (hnodup : (members.map (·.agentId)).Nodup) :
    WellPlanned (ν := ν) casing members district familySlug
      (multiContributorPlan casing members district familySlug) := by
  by_cases hnobody : livingMembers members = []
  · rw [plan_of_nobody hnobody]
    exact ⟨fun b hb => absurd hb List.not_mem_nil, List.nodup_nil, iff_of_true rfl hnobody,
      fun h => absurd hnobody h⟩
  obtain ⟨lead, hlead⟩ : ∃ m, pickAgentForDistrict members district = some m :=
    exists_pickAgentForDistrict hnobody
  have hmem := mem_of_pickAgentForDistrict hlead
  rw [plan_of_lead hids hlead]
  refine ⟨?_, ?_, ?_, fun _ => ⟨lead, _, hlead, rfl, ?_, ?_, ?_⟩⟩
  · intro b hb
    rcases List.mem_append.mp hb with hb | hb
    · obtain ⟨role, -, m, hm, -, rfl⟩ := mem_noteBatches.mp hb
      exact ⟨m, (mem_of_lastWith hm).1, rfl, (mem_of_lastWith hm).2⟩
    · obtain rfl := List.mem_singleton.mp hb
      exact ⟨lead, hmem, rfl, rfl⟩
  · rw [List.map_append, List.map_singleton, List.nodup_append]
    refine ⟨noteBatches_nodup hnodup, List.nodup_singleton _, fun id hid id' hid' => ?_⟩
    obtain ⟨b, hb, rfl⟩ := List.mem_map.mp hid
    obtain ⟨role, -, m, -, hne, rfl⟩ := mem_noteBatches.mp hb
    rw [List.mem_singleton.mp hid']
    exact hne
  · exact iff_of_false (by simp) hnobody
  · intro b hb hcalls
    obtain ⟨role, -, m, -, -, rfl⟩ := mem_noteBatches.mp hb
    have hlength := congrArg List.length hcalls
    rw [districtToolCalls_length] at hlength
    exact absurd hlength (by decide : ¬ 1 = 2)
  · intro b hb
    obtain ⟨role, hrole, m, -, -, rfl⟩ := mem_noteBatches.mp hb
    exact ⟨role, hrole, rfl⟩
  · exact fun role hrole => noteBatches_filter hnodup (mem_livingMembers hmem) hrole

/-- A family with a coordinator, two analysts, the second of them dead, and a builder. -/
def fourMembers : List SerializedMember :=
  let member : SerializedMember :=
    { id := 1, agentId := some 1, roleInFamily := .parent, roleLabel := some "coordinator", isActive := true
      lifeStatus := .alive, goals := [], structuredThinking := 1/2, growth := 0 }
  [member, { member with id := 2, agentId := some 2, roleInFamily := .child, roleLabel := some "analyst" },
    { member with id := 3, agentId := some 3, roleInFamily := .child, roleLabel := some "analyst", isActive := false
                  lifeStatus := .deceased },
    { member with id := 4, agentId := some 4, roleInFamily := .child, roleLabel := some "builder" }]

/-- The builder works, the living analyst leaves a note. -/
theorem plan_fourMembers :
    WellPlanned (ν := ℤ) asciiCasing fourMembers "build" "pulse-Moss"
      (multiContributorPlan asciiCasing fourMembers "build" "pulse-Moss") ∧
    (multiContributorPlan (ν := ℤ) asciiCasing fourMembers "build" "pulse-Moss").map (·.agentId) =
      [some 2, some 4] :=
  ⟨plan_wellPlanned _ _ _ (by decide) (by decide), by decide +kernel⟩

end

/-! ## The plan of rows -/

theorem livingMembers_serialize (rows : List FamilyMemberModel) :
    livingMembers (rows.map serializeMember) = (rows.filter (·.living)).map serializeMember := by
  unfold livingMembers
  rw [List.filter_map]
  congr 2
  funext row
  exact serializeMember_living row

theorem lastWith_serialize (rows : List FamilyMemberModel) (role : String) :
    lastWith (rows.map serializeMember) role = (City.byRole rows role).map serializeMember := by
  unfold lastWith City.byRole
  rw [List.filter_map, List.getLast?_map, ← List.head?_reverse, ← List.filter_reverse, List.head?_filter]
  rfl

theorem pickAgentForDistrict_serialize (rows : List FamilyMemberModel) (district : CityDistrict) :
    pickAgentForDistrict (rows.map serializeMember) district.name =
      (City.pickAgentForDistrict rows district).map serializeMember := by
  have hprefs : districtRolePreference district.name = City.districtRolePreference district := by
    cases district <;> rfl
  have hroles : ∀ role ∈ City.districtRolePreference district, role ≠ "" := by
    cases district <;> decide
  unfold pickAgentForDistrict City.pickAgentForDistrict
  rw [livingMembers_serialize, hprefs]
  generalize rows.filter (·.living) = pool
  have hpreferred : (City.districtRolePreference district).findSome?
      (Py.getItem (byRole (pool.map serializeMember))) =
        ((City.districtRolePreference district).findSome? (City.byRole pool)).map serializeMember := by
    generalize City.districtRolePreference district = prefs at hroles
    induction prefs with
    | nil => rfl
    | cons role prefs ih =>
        obtain ⟨hrole, hroles⟩ := List.forall_mem_cons.mp hroles
        rw [List.findSome?_cons, List.findSome?_cons, getItem_byRole hrole, lastWith_serialize]
        cases City.byRole pool role with
        | none => exact ih hroles
        | some row => rfl
  have hchild : (pool.map serializeMember).find? (·.roleInFamily = .child) =
      (pool.find? (·.roleInFamily = .child)).map serializeMember := List.find?_map
  simp only [hpreferred, hchild, List.head?_map, Option.orElse_eq_orElse, Option.orElse_eq_or, Option.map_or]

/-- **The plan of the rows is the plan of the members**, with calls that leave out their texts. -/
theorem multiContributorPlan_rows {ν : Type*} (casing : Casing) (rows : List FamilyMemberModel)
    (district : CityDistrict) (familySlug : String) :
    (multiContributorPlan (ν := ν) casing (rows.map serializeMember) district.name familySlug).map
        (fun b => (b.agentId, b.roleLabel)) =
      (City.multiContributorPlan rows district).map fun b => (b.agentId, b.roleLabel) := by
  unfold multiContributorPlan City.multiContributorPlan
  simp only [livingMembers_serialize, pickAgentForDistrict_serialize]
  generalize rows.filter (·.living) = pool
  have hids : (pool.map serializeMember).filter (·.agentId.isSome) = pool.map serializeMember := by
    refine List.filter_eq_self.mpr fun m hm => ?_
    obtain ⟨row, -, rfl⟩ := List.mem_map.mp hm
    rfl
  rw [hids]
  generalize City.pickAgentForDistrict pool district = lead
  have hnotes : (supportRoles.filterMap (supportBatch (ν := ν) casing (byRole (pool.map serializeMember))
      (lead.map serializeMember) district.name familySlug)).map (fun b => (b.agentId, b.roleLabel)) =
        (supportRoles.filterMap fun role => do
          let member ← City.byRole pool role
          if lead.map (·.agentId) = some member.agentId then none
          else some (⟨some member.agentId, some role, [.workspaceWrite]⟩ : City.Batch)).map
            fun b => (b.agentId, b.roleLabel) := by
    rw [List.map_filterMap, List.map_filterMap]
    refine List.filterMap_congr fun role hrole => ?_
    unfold supportBatch
    rw [getItem_byRole (supportRole_ne_empty hrole), lastWith_serialize]
    cases City.byRole pool role with
    | none => rfl
    | some row =>
        cases lead with
        | none => rfl
        | some l =>
            show Option.map _ (if decide (some row.agentId = some l.agentId) = true then none else _) =
              Option.map _ (if some l.agentId = some row.agentId then none else _)
            by_cases hid : row.agentId = l.agentId
            · simp [hid]
            · simp [hid, Ne.symm hid, serializeMember]
  cases lead with
  | none =>
      rw [List.map_append, ← hnotes]
      cases pool <;> simp [serializeMember]
  | some l =>
      have hlead : (Option.map serializeMember (some l)).filter (·.agentId.isSome) = some (serializeMember l) := rfl
      rw [List.map_append, ← hnotes, hlead, List.map_append]
      rfl

end Persola.City.Pulse
