import Persola.City.Employment
import Persola.City.Waves

/-!
# `City.Wedge` — the wedge demo, and who acts for a family

Three callers pick members of a family by their role. `multi_contributor_plan` and `pick_agent_for_district` look
among the living; the cohesion gate and the wedge demo take the first parent, or the first coordinator, of all the
rows there ever were, in whatever order they are returned, and name all children. They name the living exactly
where nobody in the family has died and no child is a coordinator (`onlyLivingAct_iff`).
-/

namespace Persola.City

open Agent (AgentId)
open Persona (Knob)
open Store

/-! ## The demo family -/

/-- An entry of `WEDGE_CHILDREN`. -/
structure WedgeChild where
  name : String
  roleLabel : String
  knobOverrides : KnobMap

/-- `WEDGE_CHILDREN`. -/
def wedgeChildren : List WedgeChild :=
  [⟨"Nova Analyst", "analyst", [(.reasoningDepth, 95/100), (.accuracy, 95/100), (.creativity, 35/100)]⟩,
   ⟨"Lux Creative", "creative", [(.creativity, 95/100), (.humor, 7/10), (.openness, 9/10)]⟩,
   ⟨"Forge Executor", "executor",
    [(.conscientiousness, 9/10), (.stepByStep, 9/10), (.reliability, 95/100)]⟩,
   ⟨"Kai Empath", "empath", [(.empathy, 95/100), (.agreeableness, 9/10), (.verbosity, 55/100)]⟩,
   ⟨"Atlas Builder", "builder", [(.patterns, 85/100), (.synthetics, 8/10), (.accuracy, 85/100)]⟩]

/-- The founding of the demo family. -/
def wedgeFounding (name : String) : CreateFamily where
  name := name
  description := some "Phase 3 wedge demo family — shared commons, build and run."
  defaultDistrict := "build"
  parentName := some "Orion Coordinator"
  roleLabel := some "coordinator"
  toolTags := some defaultCityToolTags

/-- A child of the demo family. -/
def WedgeChild.spawn (child : WedgeChild) (id : FamilyId) : SpawnChild where
  familyId := id
  name := child.name
  roleLabel := some child.roleLabel
  knobOverrides := child.knobOverrides
  toolTags := some defaultCityToolTags

/-- `seed_wedge_family`. -/
def seedWedgeFamily (tiers : ModelTier) (s : Store) (name : String) (now : Time) :
    Option (FamilyId × Store) := do
  let (id, s) ← createFamily tiers s (wedgeFounding name) now
  let s ← wedgeChildren.foldlM (fun s child => (spawnChild tiers s (child.spawn id)).map Prod.snd) s
  return (id, s)

/-! ## Who acts -/

/-- What the payload of `cohesion.merge` and `cohesion.veto` says about the family. -/
structure CohesionPayload where
  parentId : Option MemberId
  parentAgentId : Option AgentId
  childIds : List AgentId
deriving DecidableEq

/-- The payload that names this parent, and every child. -/
def cohesionPayload (members : List FamilyMemberModel) (parent : Option FamilyMemberModel) :
    CohesionPayload where
  parentId := parent.map (·.id)
  parentAgentId := parent.map (·.agentId)
  childIds := (members.filter (·.roleInFamily = .child)).map (·.agentId)

/-- The first row with role parent. -/
def firstParent (members : List FamilyMemberModel) : Option FamilyMemberModel :=
  members.find? (·.roleInFamily = .parent)

/-- The payload of `cohesion_decide`. -/
def decidePayload (members : List FamilyMemberModel) : CohesionPayload :=
  cohesionPayload members (firstParent members)

/-- The value of a role. -/
def FamilyMemberRole.name : FamilyMemberRole → String
  | .parent => "parent"
  | .child => "child"

/-- `by_role` of `run_wedge_demo`: the first row with this label, a row without one having its role as label. -/
def firstByRole (members : List FamilyMemberModel) (label : String) : Option FamilyMemberModel :=
  members.find? fun m => Py.orElse m.roleLabel m.roleInFamily.name = label

/-- The parent of the demo: the first coordinator, else the first parent. -/
def wedgeParent (members : List FamilyMemberModel) : Option FamilyMemberModel :=
  firstByRole members "coordinator" <|> firstParent members

/-- The payload of `run_wedge_demo`. -/
def wedgePayload (members : List FamilyMemberModel) : CohesionPayload :=
  cohesionPayload members (wedgeParent members)

/-- The tool calls of the demo by role, in order. -/
def wedgeCalls : List (String × List ToolCall) :=
  [("analyst", [.workspaceWrite]), ("creative", [.workspaceWrite, .emitVizEvent .vizPulse]),
   ("empath", [.workspaceWrite]), ("builder", [.workspaceWrite]),
   ("executor", [.workspaceWrite, .runPython])]

/-- The batches of the demo: one for each role, in nobody's name where the role is missing, and the merge. -/
def wedgeBatches (members : List FamilyMemberModel) : List Batch :=
  (wedgeCalls.map fun (role, calls) => ⟨(firstByRole members role).map (·.agentId), some role, calls⟩) ++
    [⟨(wedgePayload members).parentAgentId, none, [.emitVizEvent .cohesionMerge]⟩]

/-- `run_wedge_demo` for a family that exists. -/
def runWedgeDemo (env : Environment) (s : Session Commons) (id : FamilyId) : Option (Session Commons) := do
  let family ← s.working.getFamily id
  let members := s.working.rowsOf env.order family.id
  let (jobId, s) ← startJob s family.id .build env.now
  let (_, s) ← (wedgeBatches members).zipIdx.foldlM (runBatch env jobId) ([], s)
  let succeeded := (s.working.listRuns jobId).any (·.status = .succeeded)
  setJobStatus s jobId (if succeeded then .completed else .failed) env.now

/-- `run_wedge_demo`: without a family it seeds one first. -/
def wedgeDemo (tiers : ModelTier) (env : Environment) (s : Session Commons) (familyId : Option FamilyId)
    (familyName : String) : Option (Session Commons) :=
  match familyId with
  | some id => runWedgeDemo env s id
  | none => do
      let (id, t) ← seedWedgeFamily tiers s.working.toStore familyName env.now
      runWedgeDemo env (s.write fun db => { db with toStore := t }).commit id

/-- The gate acts in the name of the parent its payload names. -/
theorem cohesionDecide_merge {env : Environment} {s t : Session Commons} {id : JobId} {force : Bool} {d : Decision}
    (h : cohesionDecide env s id .merge force = some (d, t)) :
    ∃ job oks r, s.working.getJob id = some job ∧
      executeToolCalls s id [.emitVizEvent .cohesionMerge]
        (decidePayload (s.working.rowsOf env.order job.familyId)).parentAgentId (env.gateAdmits id)
        (fun _ => env.gate id) = some (oks, r) ∧ setJobStatus r id .completed env.now = some t := by
  obtain ⟨job, hjob, h⟩ := Option.bind_eq_some_iff.mp h
  obtain ⟨family, hfamily, h⟩ := Option.bind_eq_some_iff.mp h
  obtain ⟨score, -, h⟩ := Option.bind_eq_some_iff.mp h
  have hid : family.id = job.familyId := getFamily_id hfamily
  rw [hid] at h
  dsimp only at h
  split at h
  · cases h
  · obtain ⟨⟨oks, r⟩, hcalls, h⟩ := Option.bind_eq_some_iff.mp h
    obtain ⟨u, hstatus, h⟩ := Option.bind_eq_some_iff.mp h
    obtain ⟨-, rfl⟩ := Prod.mk.inj (Option.some.inj h)
    exact ⟨job, oks, r, hjob, hcalls, hstatus⟩

/-! ## The living -/

variable {tiers : ModelTier} {s r t : Store} {m : FamilyMemberModel} {id : FamilyId}

namespace Store

/-- The agent of a living member of the family. -/
def LivingAgent (s : Store) (id : FamilyId) (a : AgentId) : Prop :=
  ∃ m ∈ s.membersOf id, m.living = true ∧ m.agentId = a

/-- The payload names the living parent, and living children. -/
structure NamesLiving (s : Store) (id : FamilyId) (payload : CohesionPayload) : Prop where
  parent : ∃ m ∈ s.livingParents id, payload.parentId = some m.id ∧ payload.parentAgentId = some m.agentId
  children : ∀ a ∈ payload.childIds, s.LivingAgent id a

/-- The batches are in the name of living members. -/
def ActsLiving (s : Store) (id : FamilyId) (batches : List Batch) : Prop :=
  ∀ b ∈ batches, ∀ a, b.agentId = some a → s.LivingAgent id a

/-- **The dead do not act** when the rows of the family come in this order. -/
structure OnlyLivingAct (s : Store) (id : FamilyId) (order : List MemberId) : Prop where
  decide : s.NamesLiving id (decidePayload (s.rowsOf order id))
  wedge : s.ActsLiving id (wedgeBatches (s.rowsOf order id))
  wedge_names : s.NamesLiving id (wedgePayload (s.rowsOf order id))
  wave : ∀ w req district, s.ActsLiving id (waveBatches w req (s.rowsOf order id) district)

theorem mem_rowsOf {order : List MemberId} : m ∈ s.rowsOf order id ↔ m ∈ s.membersOf id := Select.mem_orderBy

/-! ## Distinct agents -/

/-- The members with family and agent. -/
def posts (s : Store) : List (FamilyId × AgentId) := s.members.map fun m => (m.familyId, m.agentId)

theorem posts_map {f : FamilyMemberModel → FamilyMemberModel}
    (hf : ∀ m, (f m).familyId = m.familyId ∧ (f m).agentId = m.agentId) :
    ({ s with members := s.members.map f } : Store).posts = s.posts := by
  unfold posts
  rw [List.map_map]
  refine List.map_congr_left fun m _ => ?_
  rw [Function.comp_apply, (hf m).1, (hf m).2]

theorem Retouches.posts (h : s.Retouches t) : t.posts = s.posts := by
  obtain ⟨f, hmembers, hf⟩ := h.members
  unfold Store.posts
  rw [hmembers, List.map_map]
  refine List.map_congr_left fun m _ => ?_
  rw [Function.comp_apply, hf m]

/-- One more member, with an agent or a family that nobody has. -/
theorem posts_nodup_append {row : FamilyMemberModel} (h : s.posts.Nodup) (hmembers : t.members = s.members ++ [row])
    (hnew : ∀ m ∈ s.members, m.familyId = row.familyId → m.agentId ≠ row.agentId) : t.posts.Nodup := by
  unfold posts
  rw [hmembers, List.map_append, List.map_singleton]
  refine List.Nodup.append h (List.nodup_singleton _) ?_
  intro post hpost hrow
  obtain ⟨m, hm, rfl⟩ := List.mem_map.mp hpost
  obtain ⟨hfam, hagent⟩ := Prod.mk.inj (List.mem_singleton.mp hrow)
  exact hnew m hm hfam hagent

theorem Recruits.posts_nodup {agent : Agent.AgentModel} {row : FamilyMemberModel} (h : s.Recruits t agent row)
    (hs : s.Tables) (hposts : s.posts.Nodup) : t.posts.Nodup :=
  posts_nodup_append hposts h.members fun _ hm _ => (h.agent_gt hs hm).ne

end Store

/-- **Every call** leaves the members of a family with agents of their own. -/
theorem call_posts (hs : s.Inv) (hposts : s.posts.Nodup) {c : Call} (h : s.call tiers c = some t) :
    t.posts.Nodup := by
  refine call_invariant (P := fun u => u.posts.Nodup) ?_ ?_ ?_ ?_ hs hposts h
  · intro u v hretouches hu
    rwa [hretouches.posts]
  · intro u m now hu
    have hbury : (u.bury m now).posts = u.posts := by
      refine posts_map fun m' => ?_
      split
      · exact ⟨rfl, rfl⟩
      · exact ⟨rfl, rfl⟩
    rwa [hbury]
  · exact fun htables _ hrecruits hu => hrecruits.posts_nodup htables hu
  · intro req now row _ _ hmembers hfam _ _
    -- nobody is in the family yet
    refine posts_nodup_append hposts hmembers fun m hm heq => ?_
    obtain ⟨f, hf, hid⟩ := hs.wellFormed.family_mem m.kin (kin_mem_lineage hm)
    have hlt : f.id < s.fresh := hs.tables.family_lt f hf
    have hnew : m.familyId = s.fresh := heq.trans hfam
    have hmfam : f.id = m.familyId := hid
    exact absurd (hmfam.trans hnew) hlt.ne

theorem posts_of_reachable (h : (system tiers).Reachable s) : s.posts.Nodup := by
  have hboth : s.Inv ∧ s.posts.Nodup := by
    refine h.invariant (I := fun u => u.Inv ∧ u.posts.Nodup) (fun u hu => ⟨inv_of_founding hu, ?_⟩)
      fun u c v hu _ hcall => ⟨call_inv hu.1 hcall, call_posts hu.1 hu.2 hcall⟩
    unfold posts
    rw [hu.members]
    exact List.nodup_nil
  exact hboth.2

/-- In a family an agent belongs to one member. -/
theorem member_of_agent (hposts : s.posts.Nodup) {m' : FamilyMemberModel} (hm : m ∈ s.membersOf id)
    (hm' : m' ∈ s.membersOf id) (hagent : m.agentId = m'.agentId) : m = m' := by
  obtain ⟨hmem, hfam⟩ := mem_membersOf.mp hm
  obtain ⟨hmem', hfam'⟩ := mem_membersOf.mp hm'
  exact List.inj_on_of_nodup_map hposts hmem hmem' (Prod.ext (hfam.trans hfam'.symm) hagent)

/-! ## Waves -/

theorem mem_byRole {pool : List FamilyMemberModel} {role : String} (h : byRole pool role = some m) : m ∈ pool :=
  List.mem_reverse.mp (List.mem_of_find?_eq_some h)

theorem mem_pickAgentForDistrict {members : List FamilyMemberModel} {district : CityDistrict}
    (h : pickAgentForDistrict members district = some m) : m ∈ members ∧ m.living = true := by
  have hpool : m ∈ members.filter (·.living) := by
    unfold pickAgentForDistrict at h
    simp only [Option.orElse_eq_orElse, Option.orElse_eq_or, Option.or_eq_some_iff] at h
    rcases h with hrole | ⟨-, hchild | ⟨-, hfirst⟩⟩
    · obtain ⟨role, -, hrole⟩ := List.exists_of_findSome?_eq_some hrole
      exact mem_byRole hrole
    · exact List.mem_of_find?_eq_some hchild
    · exact List.mem_of_mem_head? hfirst
  exact List.mem_filter.mp hpool

/-- **A wave asks the living only**, dead rows or not. -/
theorem waveBatches_acts (w : Wave) (req : WaveRequest) (order : List MemberId) (district : CityDistrict) :
    s.ActsLiving id (waveBatches w req (s.rowsOf order id) district) := by
  have hliving : ∀ {m}, m ∈ s.rowsOf order id → m.living = true → s.LivingAgent id m.agentId :=
    fun hm hl => ⟨_, mem_rowsOf.mp hm, hl, rfl⟩
  have hplan : s.ActsLiving id (multiContributorPlan (s.rowsOf order id) district) := by
    intro b hb a ha
    unfold multiContributorPlan at hb
    rcases List.mem_append.mp hb with hsupport | hlead
    · obtain ⟨role, -, hrole⟩ := List.mem_filterMap.mp hsupport
      obtain ⟨m, hm, hrole⟩ := Option.bind_eq_some_iff.mp hrole
      obtain ⟨hrow, hl⟩ := List.mem_filter.mp (mem_byRole hm)
      split at hrole
      · cases hrole
      · obtain rfl := Option.some.inj hrole
        obtain rfl := Option.some.inj ha
        exact hliving hrow hl
    · obtain ⟨m, hm, rfl⟩ := List.mem_map.mp hlead
      obtain rfl := Option.some.inj ha
      rw [Option.mem_toList] at hm
      simp only [Option.orElse_eq_orElse, Option.orElse_eq_or, Option.or_eq_some_iff] at hm
      rcases hm with hpick | ⟨-, hfirst⟩
      · obtain ⟨hpool, hl⟩ := mem_pickAgentForDistrict hpick
        exact hliving (List.mem_of_mem_filter hpool) hl
      · obtain ⟨hrow, hl⟩ := List.mem_filter.mp (List.mem_of_mem_head? hfirst)
        exact hliving hrow hl
  unfold waveBatches
  split
  · intro b hb a ha
    obtain rfl := List.mem_singleton.mp hb
    obtain ⟨m, hm, rfl⟩ := Option.map_eq_some_iff.mp ha
    obtain ⟨hrow, hl⟩ := mem_pickAgentForDistrict hm
    exact hliving hrow hl
  · exact hplan

/-! ## The gate and the demo -/

/-- Any member may be returned first. -/
theorem head_rowsOf (hs : s.Inv) (hm : m ∈ s.membersOf id) : (s.rowsOf [m.id] id).head? = some m := by
  refine Select.head?_orderBy hm fun m' hm' hne => ?_
  have hid : m.id ≠ m'.id := fun heq =>
    hne (mem_members_unique hs (mem_membersOf.mp hm').1 (mem_membersOf.mp hm).1 heq.symm)
  rw [List.idxOf_cons_self, List.idxOf_cons_ne _ hid]
  exact Nat.succ_pos _

/-- The first row is found if it fits. -/
theorem find?_of_head? {α : Type*} {l : List α} {a : α} {p : α → Bool} (h : l.head? = some a) (hp : p a = true) :
    l.find? p = some a := by
  obtain ⟨rest, rfl⟩ := List.head?_eq_some_iff.mp h
  exact List.find?_cons_of_pos hp

/-- All members of the family are living and no child is labelled as coordinator. -/
structure Store.Unbereaved (s : Store) (id : FamilyId) : Prop where
  living : ∀ m ∈ s.membersOf id, m.living = true
  coordinator : ∀ m ∈ s.membersOf id, m.roleInFamily = .child → m.roleLabel ≠ some "coordinator"

theorem mem_livingParents : m ∈ s.livingParents id ↔
    m ∈ s.membersOf id ∧ m.roleInFamily = .parent ∧ m.living = true := by
  unfold livingParents parentRows
  rw [List.mem_filter, List.mem_filter, decide_eq_true_iff, and_assoc]

theorem FamilyMemberRole.name_ne_coordinator (role : FamilyMemberRole) : role.name ≠ "coordinator" := by
  cases role <;> decide

/-- Only a row with the label `coordinator` is called one. -/
theorem coordinator_of_label (h : Py.orElse m.roleLabel m.roleInFamily.name = "coordinator") :
    m.roleLabel = some "coordinator" := by
  cases hlabel : m.roleLabel with
  | none =>
      rw [hlabel] at h
      exact absurd h m.roleInFamily.name_ne_coordinator
  | some label =>
      rw [hlabel] at h
      by_cases hempty : label = ""
      · subst hempty
        exact absurd h m.roleInFamily.name_ne_coordinator
      · have hsame : Py.orElse (some label) m.roleInFamily.name = label := if_neg hempty
        rw [← hsame, h]

/-- Where nobody has died the payload names the living, if it names a parent. -/
theorem Store.Unbereaved.names (h : s.Unbereaved id) {order : List MemberId} {parent : Option FamilyMemberModel}
    (hparent : ∃ m ∈ s.livingParents id, parent = some m) :
    s.NamesLiving id (cohesionPayload (s.rowsOf order id) parent) where
  parent := by
    obtain ⟨m, hm, rfl⟩ := hparent
    exact ⟨m, hm, rfl, rfl⟩
  children := by
    intro a ha
    obtain ⟨m, hm, rfl⟩ := List.mem_map.mp ha
    have hmem := mem_rowsOf.mp (List.mem_of_mem_filter hm)
    exact ⟨m, hmem, h.living m hmem, rfl⟩

/-- The first parent is the living one. -/
theorem Store.Unbereaved.firstParent (h : s.Unbereaved id) (hone : (s.livingParents id).length = 1)
    (order : List MemberId) : ∃ m ∈ s.livingParents id, firstParent (s.rowsOf order id) = some m := by
  obtain ⟨only, honly⟩ := List.exists_mem_of_length_pos (hone.symm ▸ Nat.one_pos)
  obtain ⟨hmem, hrole, -⟩ := mem_livingParents.mp honly
  cases hfirst : City.firstParent (s.rowsOf order id) with
  | none =>
      have hnone := List.find?_eq_none.mp hfirst only (mem_rowsOf.mpr hmem)
      exact absurd (decide_eq_true hrole) hnone
  | some m =>
      have hrow := mem_rowsOf.mp (List.mem_of_find?_eq_some hfirst)
      have hparent : m.roleInFamily = .parent := by simpa using List.find?_some hfirst
      exact ⟨m, mem_livingParents.mpr ⟨hrow, hparent, h.living m hrow⟩, rfl⟩

/-- And so is the parent of the demo. -/
theorem Store.Unbereaved.wedgeParent (h : s.Unbereaved id) (hone : (s.livingParents id).length = 1)
    (order : List MemberId) : ∃ m ∈ s.livingParents id, wedgeParent (s.rowsOf order id) = some m := by
  unfold City.wedgeParent
  cases hrole : firstByRole (s.rowsOf order id) "coordinator" with
  | none => exact h.firstParent hone order
  | some m =>
      refine ⟨m, ?_, rfl⟩
      have hrow := mem_rowsOf.mp (List.mem_of_find?_eq_some hrole)
      have hlabel : m.roleLabel = some "coordinator" := coordinator_of_label (by simpa using List.find?_some hrole)
      refine mem_livingParents.mpr ⟨hrow, ?_, h.living m hrow⟩
      cases hfam : m.roleInFamily with
      | parent => rfl
      | child => exact absurd hlabel (h.coordinator m hrow hfam)

/-- The parent that such a payload names is a living parent. -/
theorem Store.NamesLiving.mem_livingParents {rows : List FamilyMemberModel} (hs : s.Inv)
    (h : s.NamesLiving id (cohesionPayload rows (some m))) (hm : m ∈ s.membersOf id) :
    m ∈ s.livingParents id := by
  obtain ⟨m', hm', hid, -⟩ := h.parent
  have hmem := (City.mem_livingParents.mp hm').1
  have hsame : m = m' :=
    mem_members_unique hs (mem_membersOf.mp hm).1 (mem_membersOf.mp hmem).1 (Option.some.inj hid)
  rw [hsame]
  exact hm'

/-- Where nobody has died the demo asks the living only. -/
theorem Store.Unbereaved.wedge_acts (h : s.Unbereaved id) {order : List MemberId}
    (hparent : m ∈ s.livingParents id) (hwedge : City.wedgeParent (s.rowsOf order id) = some m) :
    s.ActsLiving id (wedgeBatches (s.rowsOf order id)) := by
  intro b hb a ha
  rcases List.mem_append.mp hb with hrole | hmerge
  · obtain ⟨⟨role, calls⟩, -, rfl⟩ := List.mem_map.mp hrole
    obtain ⟨row, hfound, rfl⟩ := Option.map_eq_some_iff.mp ha
    have hrow := mem_rowsOf.mp (List.mem_of_find?_eq_some hfound)
    exact ⟨row, hrow, h.living row hrow, rfl⟩
  · obtain rfl := List.mem_singleton.mp hmerge
    have hagent : (City.wedgeParent (s.rowsOf order id)).map (·.agentId) = some a := ha
    rw [hwedge] at hagent
    obtain rfl := Option.some.inj hagent
    obtain ⟨hmem, -, hliving⟩ := mem_livingParents.mp hparent
    exact ⟨m, hmem, hliving, rfl⟩

/-- **Only the living act** leaves nobody in the family dead: each row is named in some order. -/
theorem unbereaved_of_onlyLivingAct (hs : s.Inv) (hposts : s.posts.Nodup)
    (hall : ∀ order, s.OnlyLivingAct id order) : s.Unbereaved id := by
  constructor
  · intro m hm
    cases hrole : m.roleInFamily with
    | child =>
        -- every child is named
        have hnamed := (hall []).decide.children m.agentId
          (List.mem_map.mpr ⟨m, List.mem_filter.mpr ⟨mem_rowsOf.mpr hm, decide_eq_true hrole⟩, rfl⟩)
        obtain ⟨m', hm', hliving, hagent⟩ := hnamed
        rw [member_of_agent hposts hm hm' hagent.symm]
        exact hliving
    | parent =>
        -- a parent is named where its row comes first
        have hfirst : firstParent (s.rowsOf [m.id] id) = some m :=
          find?_of_head? (head_rowsOf hs hm) (decide_eq_true hrole)
        have hnamed : s.NamesLiving id (cohesionPayload (s.rowsOf [m.id] id) (some m)) :=
          hfirst ▸ (hall [m.id]).decide
        obtain ⟨-, -, hliving⟩ := mem_livingParents.mp (hnamed.mem_livingParents hs hm)
        exact hliving
  · intro m hm hchild hlabel
    -- a coordinator is named by the demo where its row comes first
    have hfirst : wedgeParent (s.rowsOf [m.id] id) = some m := by
      unfold wedgeParent
      rw [show firstByRole (s.rowsOf [m.id] id) "coordinator" = some m from
        find?_of_head? (head_rowsOf hs hm) (by rw [hlabel]; rfl)]
      rfl
    have hnamed : s.NamesLiving id (cohesionPayload (s.rowsOf [m.id] id) (some m)) :=
      hfirst ▸ (hall [m.id]).wedge_names
    obtain ⟨-, hparent, -⟩ := mem_livingParents.mp (hnamed.mem_livingParents hs hm)
    rw [hparent] at hchild
    cases hchild

/-- **The dead do not act** for a family, in whatever order its rows are returned, exactly when nobody in it
has died and no child is labelled as coordinator. -/
theorem onlyLivingAct_iff (h : (system tiers).Reachable s) {f : FamilyModel} (hf : f ∈ s.families) :
    (∀ order, s.OnlyLivingAct f.id order) ↔ s.Unbereaved f.id := by
  have hs := inv_of_reachable h
  have hone := hs.ancestry.one_parent f hf
  constructor
  · exact unbereaved_of_onlyLivingAct hs (posts_of_reachable h)
  · intro hun order
    obtain ⟨parent, hparent, hwedge⟩ := hun.wedgeParent hone order
    constructor
    · exact hun.names (hun.firstParent hone order)
    · exact hun.wedge_acts hparent hwedge
    · exact hun.names ⟨parent, hparent, hwedge⟩
    · exact fun w req district => waveBatches_acts w req order district

/-! ## Fresh families -/

/-- A new family has nobody to mourn. -/
theorem createFamily_unbereaved (hs : s.Inv) {req : CreateFamily} {now : Time}
    (h : createFamily tiers s req now = some (id, t)) : t.Unbereaved id := by
  obtain ⟨district, -, h⟩ := Option.bind_eq_some_iff.mp h
  obtain ⟨⟨founder, r⟩, hfounder, h⟩ := Option.bind_eq_some_iff.mp h
  obtain ⟨maxAgeTicks, -, h⟩ := Option.bind_eq_some_iff.mp h
  obtain ⟨rfl, rfl⟩ := Prod.mk.inj (Option.some.inj h)
  have hr : r.Inv := (parentAgent_spec hfounder).1.inv hs
  have hold : ∀ m ∈ r.members, m.familyId ≠ r.fresh := by
    intro m hm heq
    obtain ⟨f, hf, hid⟩ := hr.wellFormed.family_mem m.kin (kin_mem_lineage hm)
    have hfam : f.id = m.familyId := hid
    exact (hr.tables.family_lt f hf).ne (hfam.trans heq)
  constructor
  · intro m hm
    obtain ⟨hmem, hfam⟩ := mem_membersOf.mp hm
    rcases List.mem_append.mp hmem with hmem | hnew
    · exact absurd hfam (hold m hmem)
    · rw [List.mem_singleton.mp hnew]
      rfl
  · intro m hm hchild
    obtain ⟨hmem, hfam⟩ := mem_membersOf.mp hm
    rcases List.mem_append.mp hmem with hmem | hnew
    · exact absurd hfam (hold m hmem)
    · rw [List.mem_singleton.mp hnew] at hchild
      cases hchild

/-- A child comes alive, with the label of the request. -/
theorem spawnChild_row {req : SpawnChild} (h : spawnChild tiers s req = some (m, t)) :
    t.members = s.members ++ [m] ∧ m.living = true ∧ m.roleLabel = req.roleLabel := by
  obtain ⟨family, -, h⟩ := Option.bind_eq_some_iff.mp h
  obtain ⟨parent, -, h⟩ := Option.bind_eq_some_iff.mp h
  obtain ⟨parentAgent, -, h⟩ := Option.bind_eq_some_iff.mp h
  obtain ⟨profile, -, h⟩ := Option.bind_eq_some_iff.mp h
  obtain ⟨rfl, rfl⟩ := Prod.mk.inj (Option.some.inj h)
  exact ⟨rfl, rfl, rfl⟩

theorem spawnChild_unbereaved {req : SpawnChild} (h : spawnChild tiers s req = some (m, t))
    (hun : s.Unbereaved id) (hlabel : req.roleLabel ≠ some "coordinator") : t.Unbereaved id := by
  obtain ⟨hmembers, hliving, hrow⟩ := spawnChild_row h
  constructor
  · intro m' hm'
    obtain ⟨hmem, hfam⟩ := mem_membersOf.mp hm'
    rw [hmembers] at hmem
    rcases List.mem_append.mp hmem with hold | hnew
    · exact hun.living m' (mem_membersOf.mpr ⟨hold, hfam⟩)
    · rw [List.mem_singleton.mp hnew]
      exact hliving
  · intro m' hm' hchild
    obtain ⟨hmem, hfam⟩ := mem_membersOf.mp hm'
    rw [hmembers] at hmem
    rcases List.mem_append.mp hmem with hold | hnew
    · exact hun.coordinator m' (mem_membersOf.mpr ⟨hold, hfam⟩) hchild
    · rw [List.mem_singleton.mp hnew, hrow]
      exact hlabel

/-- **The demo family** is right for its own demo. -/
theorem seedWedgeFamily_unbereaved (hs : s.Inv) {name : String} {now : Time}
    (h : seedWedgeFamily tiers s name now = some (id, t)) : t.Unbereaved id := by
  obtain ⟨⟨id', r⟩, hcreate, h⟩ := Option.bind_eq_some_iff.mp h
  obtain ⟨u, hspawn, h⟩ := Option.bind_eq_some_iff.mp h
  obtain ⟨rfl, rfl⟩ := Prod.mk.inj (Option.some.inj h)
  let I (rest : List WedgeChild) (v : Store) : Prop :=
    v.Unbereaved id' ∧ ∀ child ∈ rest, child.roleLabel ≠ "coordinator"
  have hstep : ∀ (child : WedgeChild) (rest : List WedgeChild) (v w : Store), I (child :: rest) v →
      (spawnChild tiers v (child.spawn id')).map Prod.snd = some w → I rest w := by
    rintro child rest v w ⟨hun, hlabels⟩ hone
    obtain ⟨⟨m, w'⟩, hspawned, rfl⟩ := Option.map_eq_some_iff.mp hone
    obtain ⟨hlabel, hrest⟩ := List.forall_mem_cons.mp hlabels
    exact ⟨spawnChild_unbereaved hspawned hun fun heq => hlabel (Option.some.inj heq), hrest⟩
  have hlabels : ∀ child ∈ wedgeChildren, child.roleLabel ≠ "coordinator" := by decide
  exact (Runs.foldlM_invariant hstep (⟨createFamily_unbereaved hs hcreate, hlabels⟩ : I _ _) hspawn).1

/-- A founder and a child that both live. -/
def youngFamily : List Call :=
  [.createFamily { name := "Moss" } 1, .spawnChild { familyId := 2, name := "Fern", roleLabel := some "analyst" },
   .lifeTick { now := 2 }]

/-- Nobody dead acts for it, in whatever order its rows come. -/
theorem onlyLivingAct_youngFamily : ∃ s, (system ⟨"large", "small"⟩).exec emptyCity youngFamily = some s ∧
    ∀ order, s.OnlyLivingAct 2 order := by
  have hex : ((system ⟨"large", "small"⟩).exec emptyCity youngFamily).any (fun s =>
      decide ((∃ f ∈ s.families, f.id = 2) ∧ (∀ m ∈ s.membersOf 2, m.living = true) ∧
        ∀ m ∈ s.membersOf 2, m.roleInFamily = .child → m.roleLabel ≠ some "coordinator")) = true := by
    decide +kernel
  obtain ⟨s, hrun, hs⟩ := Runs.System.exists_of_exec hex
  obtain ⟨⟨f, hf, hid⟩, hliving, hcoordinator⟩ := of_decide_eq_true hs
  have hun : s.Unbereaved f.id := hid.symm ▸ ⟨hliving, hcoordinator⟩
  exact ⟨s, hrun, hid ▸ (onlyLivingAct_iff (Runs.System.reachable_of_exec init_emptyCity hrun) hf).mpr hun⟩

/-- **A founder that died** is the parent the cohesion gate names, if its row is returned first. -/
theorem cohesionDecide_names_dead : ¬ ∀ tiers s order, ∀ f ∈ s.families, (system tiers).Reachable s →
    s.OnlyLivingAct f.id order := by
  intro hall
  have hex : ((system ⟨"large", "small"⟩).exec emptyCity oneDeath).any (fun s =>
      (s.families.any fun f => f.id = 2) && decide ((decidePayload (s.rowsOf [3] 2)).parentId = some 3 ∧
        ∀ m ∈ s.livingParents 2, m.id ≠ 3)) = true := by
    decide +kernel
  obtain ⟨s, hrun, hs⟩ := Runs.System.exists_of_exec hex
  obtain ⟨hfamily, hnamed⟩ := Bool.and_eq_true_iff.mp hs
  obtain ⟨f, hf, hid⟩ := List.any_eq_true.mp hfamily
  obtain ⟨hparent, hdead⟩ := of_decide_eq_true hnamed
  have hfid : f.id = 2 := of_decide_eq_true hid
  have hnames := (hall _ s [3] f hf (Runs.System.reachable_of_exec init_emptyCity hrun)).decide.parent
  rw [hfid] at hnames
  obtain ⟨m, hm, hmid, -⟩ := hnames
  exact hdead m hm (Option.some.inj (hmid.symm.trans hparent))

end Persola.City
