import Persola.City.Wedge

/-!
# `City.Export` — the graph of the Austin pack

`export_austin_pack` draws the families of the snapshot: a node for each member under the id of its *agent*, an
edge for each parent and each predecessor that is found in the family. Edges always lead from a node to a newer
agent, so there are no cycles in any reachable city. The nodes have distinct ids as long as no family is founded
with the agent of a member (`export_throughout`); `create_family` allows it.
-/

namespace Persola.City

open Agent (AgentId AgentModel)
open Store

/-! ## The graph -/

/-- A node of the exported graph. -/
structure GraphNode where
  id : AgentId
  memberId : MemberId
  familyId : FamilyId
  familyName : String
  district : CityDistrict
  role : String
  name : Option String
  generation : ℕ
  ageTicks : ℤ
  maxAgeTicks : ℤ
  lifeStatus : FamilyMemberLifeStatus
  goals : List String
  dreams : List String
  structuredThinking : ℚ
  growth : ℚ
  successorOfId : Option MemberId

inductive EdgeKind
  | lineage | legacy
deriving DecidableEq, Repr

/-- An edge of the exported graph. -/
structure GraphEdge where
  source : AgentId
  target : AgentId
  familyId : FamilyId
  kind : EdgeKind
deriving DecidableEq, Repr

structure Graph where
  nodes : List GraphNode
  edges : List GraphEdge

namespace Store

/-- The families of `city_snapshot`, with their members in the order the database returns them. -/
def citySnapshot (s : Store) (order : List MemberId) : List (FamilyModel × List FamilyMemberModel) :=
  s.listRecent.filterMap fun summary => (s.getFamily summary.id).map fun family => (family, s.rowsOf order family.id)

/-- The node of a member. -/
def graphNode (s : Store) (family : FamilyModel) (m : FamilyMemberModel) : GraphNode where
  id := m.agentId
  memberId := m.id
  familyId := family.id
  familyName := family.name
  district := family.defaultDistrict
  role := Py.orElse m.roleLabel m.roleInFamily.name
  name := (s.getAgent m.agentId).map AgentModel.name
  generation := m.generation
  ageTicks := m.ageTicks
  maxAgeTicks := numOr m.maxAgeTicks defaultMaxAgeTicks
  lifeStatus := m.lifeStatus
  goals := m.goals
  dreams := m.dreams
  structuredThinking := numOr m.structuredThinking (1/2)
  growth := m.growth
  successorOfId := m.successorOfId

/-- The edge from the member `i` of the family, if there is such a member. -/
def edgeFrom (family : FamilyModel) (members : List FamilyMemberModel) (m : FamilyMemberModel) (kind : EdgeKind)
    (i : Option MemberId) : Option GraphEdge :=
  (i.bind fun i => members.find? (·.id = i)).map fun p => ⟨p.agentId, m.agentId, family.id, kind⟩

/-- The edges to a member. -/
def graphEdges (family : FamilyModel) (members : List FamilyMemberModel) (m : FamilyMemberModel) : List GraphEdge :=
  (edgeFrom family members m .lineage m.parentMemberId).toList ++
    (edgeFrom family members m .legacy m.successorOfId).toList

/-- The graph of `export_austin_pack`. -/
def exportGraph (s : Store) (order : List MemberId) : Graph where
  nodes := (s.citySnapshot order).flatMap fun (family, members) => members.map (s.graphNode family)
  edges := (s.citySnapshot order).flatMap fun (family, members) => members.flatMap (graphEdges family members)

end Store

/-- There is an edge between two ids. -/
def Graph.Links (g : Graph) (a b : AgentId) : Prop := ∃ e ∈ g.edges, e.source = a ∧ e.target = b

/-- **The graph is a graph**: its nodes have distinct ids, its edges join them, and there is no cycle. -/
structure Graph.Proper (g : Graph) : Prop where
  distinct : (g.nodes.map (·.id)).Nodup
  source_mem : ∀ e ∈ g.edges, e.source ∈ g.nodes.map (·.id)
  target_mem : ∀ e ∈ g.edges, e.target ∈ g.nodes.map (·.id)
  acyclic : ∀ a, ¬ Relation.TransGen g.Links a a

/-! ## What is exported -/

variable {tiers : ModelTier} {s t : Store} {m : FamilyMemberModel} {order : List MemberId}

theorem mem_of_mem_listRecent {family : FamilyModel} (h : family ∈ s.listRecent) : family ∈ s.families :=
  List.mem_of_mem_filter (Select.mem_orderByDesc.mp (List.mem_of_mem_take h))

/-- The snapshot has the families listed, each once. -/
theorem citySnapshot_eq (h : s.Tables) :
    s.citySnapshot order = s.listRecent.map fun family => (family, s.rowsOf order family.id) := by
  unfold citySnapshot
  rw [← List.filterMap_eq_map]
  refine List.filterMap_congr fun family hf => ?_
  have hget : s.getFamily family.id = some family := Table.find?_key h.families_nodup (mem_of_mem_listRecent hf)
  rw [hget]
  rfl

/-- A member is exported if its family is listed. -/
def Store.Exported (s : Store) (m : FamilyMemberModel) : Prop :=
  m ∈ s.members ∧ ∃ family ∈ s.listRecent, family.id = m.familyId

/-- The exported members, in the order of the nodes. -/
def Store.exported (s : Store) (order : List MemberId) : List FamilyMemberModel :=
  (s.listRecent).flatMap fun family => s.rowsOf order family.id

theorem mem_exported : m ∈ s.exported order ↔ s.Exported m := by
  unfold exported Exported
  rw [List.mem_flatMap]
  constructor
  · rintro ⟨family, hf, hm⟩
    obtain ⟨hmem, hfam⟩ := mem_membersOf.mp (mem_rowsOf.mp hm)
    exact ⟨hmem, family, hf, hfam.symm⟩
  · rintro ⟨hmem, family, hf, hfam⟩
    exact ⟨family, hf, mem_rowsOf.mpr (mem_membersOf.mpr ⟨hmem, hfam.symm⟩)⟩

/-- The ids of the nodes are the agents of the exported members. -/
theorem nodes_exportGraph (h : s.Tables) :
    (s.exportGraph order).nodes.map (·.id) = (s.exported order).map (·.agentId) := by
  unfold exportGraph exported
  rw [citySnapshot_eq h, List.flatMap_map, List.map_flatMap, List.map_flatMap]
  simp only [List.map_map]
  rfl

theorem exported_nodup (h : s.Inv) : (s.exported order).Nodup := by
  have hmembers : s.members.Nodup := h.ancestry.in_order.imp fun hlt heq => hlt.ne (congrArg _ heq)
  have hfamilies : ((s.tickFamilies {}).map (·.id)).Nodup := tickFamilies_nodup h.tables
  unfold exported
  rw [List.nodup_flatMap]
  constructor
  · intro family _
    exact (Select.orderBy_perm _ _).nodup_iff.mpr (hmembers.filter _)
  · rw [List.Nodup, List.pairwise_map] at hfamilies
    refine List.Pairwise.imp (fun hne m hm hm' => hne ?_) hfamilies
    exact (mem_membersOf.mp (mem_rowsOf.mp hm)).2.symm.trans (mem_membersOf.mp (mem_rowsOf.mp hm')).2

/-- **The nodes have distinct ids exactly if the exported members have agents of their own.** -/
theorem nodes_nodup_iff (h : s.Inv) : ((s.exportGraph order).nodes.map (·.id)).Nodup ↔
    ∀ m m', s.Exported m → s.Exported m' → m.agentId = m'.agentId → m = m' := by
  rw [nodes_exportGraph h.tables, List.nodup_map_iff_inj_on (exported_nodup h)]
  constructor
  · exact fun hinj m m' hm hm' => hinj m (mem_exported.mpr hm) m' (mem_exported.mpr hm')
  · exact fun hinj m hm m' hm' => hinj m m' (mem_exported.mp hm) (mem_exported.mp hm')

/-- What an edge stands for. -/
theorem edge_spec (h : s.Tables) {e : GraphEdge} (he : e ∈ (s.exportGraph order).edges) :
    ∃ m p, s.Exported m ∧ s.Exported p ∧ e.source = p.agentId ∧ e.target = m.agentId ∧
      (m.parentMemberId = some p.id ∨ m.successorOfId = some p.id) := by
  unfold exportGraph at he
  rw [citySnapshot_eq h] at he
  obtain ⟨⟨family, members⟩, hpair, he⟩ := List.mem_flatMap.mp he
  obtain ⟨family, hf, hpair⟩ := List.mem_map.mp hpair
  obtain ⟨rfl, rfl⟩ := Prod.mk.inj hpair
  obtain ⟨m, hm, he⟩ := List.mem_flatMap.mp he
  have hexported {m' : FamilyMemberModel} (hm' : m' ∈ s.rowsOf order family.id) : s.Exported m' :=
    mem_exported.mp (List.mem_flatMap.mpr ⟨family, hf, hm'⟩)
  have hedge {kind : EdgeKind} {i : Option MemberId}
      (he : edgeFrom family (s.rowsOf order family.id) m kind i = some e) :
      ∃ p, s.Exported p ∧ e.source = p.agentId ∧ e.target = m.agentId ∧ i = some p.id := by
    obtain ⟨p, hp, rfl⟩ := Option.map_eq_some_iff.mp he
    obtain ⟨i, rfl, hp⟩ := Option.bind_eq_some_iff.mp hp
    exact ⟨p, hexported (List.mem_of_find?_eq_some hp), rfl, rfl, congrArg some (Table.key_of_find? hp).symm⟩
  unfold graphEdges at he
  rw [List.mem_append, Option.mem_toList, Option.mem_toList] at he
  rcases he with hlineage | hlegacy
  · obtain ⟨p, hp, hsource, htarget, hparent⟩ := hedge hlineage
    exact ⟨m, p, hexported hm, hp, hsource, htarget, .inl hparent⟩
  · obtain ⟨p, hp, hsource, htarget, hheir⟩ := hedge hlegacy
    exact ⟨m, p, hexported hm, hp, hsource, htarget, .inr hheir⟩

/-! ## Agents in order -/

/-- Who is somebody's child or heir has a newer agent than everybody before. -/
def Store.Descends (s : Store) : Prop :=
  ∀ m ∈ s.members, m.parentMemberId ≠ none ∨ m.successorOfId ≠ none →
    ∀ p ∈ s.members, p.id < m.id → p.agentId < m.agentId

/-- Edits of rows that leave alone whose they are and where they come from. -/
theorem descends_map {f : FamilyMemberModel → FamilyMemberModel} (hf : ∀ m, (f m).id = m.id ∧
    (f m).agentId = m.agentId ∧ (f m).parentMemberId = m.parentMemberId ∧ (f m).successorOfId = m.successorOfId)
    (hmembers : t.members = s.members.map f) (h : s.Descends) : t.Descends := by
  intro m hm hlink p hp hlt
  rw [hmembers] at hm hp
  obtain ⟨m₀, hm₀, rfl⟩ := List.mem_map.mp hm
  obtain ⟨p₀, hp₀, rfl⟩ := List.mem_map.mp hp
  obtain ⟨hid, hagent, hparent, hheir⟩ := hf m₀
  obtain ⟨hpid, hpagent, -, -⟩ := hf p₀
  rw [hparent, hheir] at hlink
  rw [hid, hpid] at hlt
  rw [hagent, hpagent]
  exact h m₀ hm₀ hlink p₀ hp₀ hlt

/-- One more member, who is nobody's child or heir, or has a newer agent than all the others. -/
theorem descends_append {row : FamilyMemberModel} (h : s.Descends) (ht : t.Inv)
    (hmembers : t.members = s.members ++ [row])
    (hrow : row.parentMemberId ≠ none ∨ row.successorOfId ≠ none → ∀ p ∈ s.members, p.agentId < row.agentId) :
    t.Descends := by
  have hsorted := ht.ancestry.in_order
  rw [hmembers] at hsorted
  have hlast (p) (hp : p ∈ s.members) : p.id < row.id :=
    (List.pairwise_append.mp hsorted).2.2 p hp row (List.mem_singleton_self _)
  intro m hm hlink p hp hlt
  rw [hmembers] at hm hp
  rcases List.mem_append.mp hm with hm | hm
  · rcases List.mem_append.mp hp with hp | hp
    · exact h m hm hlink p hp hlt
    · rw [List.mem_singleton.mp hp] at hlt
      exact absurd hlt (hlast m hm).not_gt
  · obtain rfl := List.mem_singleton.mp hm
    rcases List.mem_append.mp hp with hp | hp
    · exact hrow hlink p hp
    · rw [List.mem_singleton.mp hp] at hlt
      exact absurd hlt (lt_irrefl _)

/-- **Every call** leaves children and heirs with newer agents. -/
theorem call_descends (hs : s.Inv) (hdescends : s.Descends) {c : Call} (h : s.call tiers c = some t) :
    t.Descends := by
  have ht := call_inv hs h
  refine call_invariant (P := Store.Descends) ?_ ?_ ?_ ?_ hs hdescends h
  · intro u v hretouches hu
    obtain ⟨f, hmembers, hf⟩ := hretouches.members
    refine descends_map (fun m => ?_) hmembers hu
    rw [hf m]
    exact ⟨rfl, rfl, rfl, rfl⟩
  · intro u m now hu
    refine descends_map (fun m' => ?_) rfl hu
    split
    · exact ⟨rfl, rfl, rfl, rfl⟩
    · exact ⟨rfl, rfl, rfl, rfl⟩
  · intro u v agent row htables hv hrecruits hu
    exact descends_append hu hv hrecruits.members fun _ p hp => hrecruits.agent_gt htables hp
  · intro req now row _ _ hmembers _ hparent hheir
    refine descends_append hdescends ht hmembers fun hlink => ?_
    rw [hparent, hheir] at hlink
    simp at hlink

theorem descends_of_reachable (h : (system tiers).Reachable s) : s.Descends := by
  have hboth : s.Inv ∧ s.Descends := by
    refine h.invariant (I := fun u => u.Inv ∧ u.Descends) (fun u hu => ⟨inv_of_founding hu, fun m hm => ?_⟩)
      fun u c v hu _ hcall => ⟨call_inv hu.1 hcall, call_descends hu.1 hu.2 hcall⟩
    rw [hu.members] at hm
    cases hm
  exact hboth.2

/-- **An edge leads to a newer agent.** -/
theorem edge_lt (hs : s.Inv) (hdescends : s.Descends) {a b : AgentId} (h : (s.exportGraph order).Links a b) :
    a < b := by
  obtain ⟨e, he, rfl, rfl⟩ := h
  obtain ⟨m, p, hm, hp, hsource, htarget, hlink⟩ := edge_spec hs.tables he
  rw [hsource, htarget]
  rcases hlink with hparent | hheir
  · obtain ⟨q, -, hid, -, hlt⟩ := hs.ancestry.parent_earlier m hm.1 p.id hparent
    exact hdescends m hm.1 (.inl (by rw [hparent]; simp)) p hp.1 (hid ▸ hlt)
  · obtain ⟨q, -, hid, -, hlt, -⟩ := hs.ancestry.predecessor_earlier m hm.1 p.id hheir
    exact hdescends m hm.1 (.inr (by rw [hheir]; simp)) p hp.1 (hid ▸ hlt)

/-- **In a reachable city the export is a graph exactly if its nodes have distinct ids.** -/
theorem proper_iff (h : (system tiers).Reachable s) : (s.exportGraph order).Proper ↔
    ((s.exportGraph order).nodes.map (·.id)).Nodup := by
  have hs := inv_of_reachable h
  have hmem {m' : FamilyMemberModel} (hm' : s.Exported m') :
      m'.agentId ∈ (s.exportGraph order).nodes.map (·.id) := by
    rw [nodes_exportGraph hs.tables]
    exact List.mem_map_of_mem (mem_exported.mpr hm')
  refine ⟨fun hproper => hproper.distinct, fun hdistinct => ⟨hdistinct, ?_, ?_, ?_⟩⟩
  · intro e he
    obtain ⟨m, p, -, hp, hsource, -⟩ := edge_spec hs.tables he
    exact hsource ▸ hmem hp
  · intro e he
    obtain ⟨m, p, hm, -, -, htarget, -⟩ := edge_spec hs.tables he
    exact htarget ▸ hmem hm
  · intro a hcycle
    have hlt : Relation.TransGen (· < ·) a a :=
      Relation.TransGen.mono (fun _ _ hlink => edge_lt hs (descends_of_reachable h) hlink) _ _ hcycle
    rw [Relation.transGen_eq_self] at hlt
    exact lt_irrefl a hlt

/-! ## Runs -/

/-- **Every member has an agent of its own.** -/
def Store.Distinct (s : Store) : Prop := (s.members.map (·.agentId)).Nodup

/-- A family is founded with an agent that is no member's. -/
def newFounder (s : Store) : Call → Prop
  | .createFamily req _ => ∀ a ∈ req.parentAgentId, ∀ m ∈ s.members, m.agentId ≠ a
  | _ => True

instance (s : Store) (c : Call) : Decidable (newFounder s c) :=
  match c with
  | .createFamily req _ => inferInstanceAs (Decidable (∀ a ∈ req.parentAgentId, ∀ m ∈ s.members, m.agentId ≠ a))
  | .spawnChild _ => inferInstanceAs (Decidable True)
  | .updateFamilyPolicy _ _ _ => inferInstanceAs (Decidable True)
  | .updateMemberLife _ _ _ _ => inferInstanceAs (Decidable True)
  | .lifeTick _ => inferInstanceAs (Decidable True)
  | .work _ => inferInstanceAs (Decidable True)

theorem Store.Distinct.congr (h : s.Distinct) (hagents : t.members.map (·.agentId) = s.members.map (·.agentId)) :
    t.Distinct := by
  unfold Distinct
  rwa [hagents]

theorem distinct_append_iff {row : FamilyMemberModel} (h : s.Distinct) (hmembers : t.members = s.members ++ [row]) :
    t.Distinct ↔ ∀ m ∈ s.members, m.agentId ≠ row.agentId := by
  unfold Distinct
  rw [hmembers, List.map_append, List.map_singleton, List.nodup_append]
  constructor
  · rintro ⟨-, -, hne⟩ m hm
    exact hne _ (List.mem_map_of_mem hm) _ (List.mem_singleton_self _)
  · intro hne
    refine ⟨h, List.nodup_singleton _, fun a ha b hb => ?_⟩
    obtain ⟨m, hm, rfl⟩ := List.mem_map.mp ha
    rw [List.mem_singleton.mp hb]
    exact hne m hm

/-- **One call** leaves the members with agents of their own exactly when it meets the condition. -/
theorem distinct_step_iff (hs : s.Inv) (hdistinct : s.Distinct) {c : Call} (h : s.call tiers c = some t) :
    t.Distinct ↔ newFounder s c := by
  constructor
  · intro ht
    cases c with
    | createFamily req now =>
        intro a ha
        obtain ⟨⟨id, t'⟩, hcreate, rfl⟩ := Option.map_eq_some_iff.mp h
        rcases createFamily_cases hcreate with ⟨hnone, -⟩ | ⟨b, row, hsome, -, hmembers, rfl, -⟩
        · rw [hnone] at ha
          cases ha
        · obtain rfl := Option.some.inj (hsome.symm.trans ha)
          exact (distinct_append_iff hdistinct hmembers).mp ht
    | spawnChild req => trivial
    | updateFamilyPolicy id patch now => trivial
    | updateMemberLife id goals dreams structuredThinking => trivial
    | lifeTick req => trivial
    | work jobs => trivial
  · intro hnew
    refine call_invariant (P := Store.Distinct) ?_ ?_ ?_ ?_ hs hdistinct h
    · intro u v hretouches hu
      obtain ⟨f, hmembers, hf⟩ := hretouches.members
      refine hu.congr ?_
      rw [hmembers, List.map_map]
      refine List.map_congr_left fun m _ => ?_
      rw [Function.comp_apply, hf m]
    · intro u m now hu
      refine hu.congr ?_
      show (u.members.map _).map _ = _
      rw [List.map_map]
      refine List.map_congr_left fun m' _ => ?_
      rw [Function.comp_apply]
      split
      · rfl
      · rfl
    · intro u v agent row htables _ hrecruits hu
      exact (distinct_append_iff hu hrecruits.members).mpr fun m hm => (hrecruits.agent_gt htables hm).ne
    · rintro req now row rfl hsome hmembers - - -
      exact (distinct_append_iff hdistinct hmembers).mpr fun m hm => hnew row.agentId hsome m hm

/-- Families are never lost, and stay active. -/
theorem call_families {c : Call} (hs : s.Inv) (h : s.call tiers c = some t) :
    s.families.length ≤ t.families.length ∧
      ((∀ f ∈ s.families, f.isActive = true) → ∀ f ∈ t.families, f.isActive = true) := by
  cases c with
  | createFamily req now =>
      obtain ⟨⟨id, t'⟩, hcreate, rfl⟩ := Option.map_eq_some_iff.mp h
      obtain ⟨district, -, hcreate⟩ := Option.bind_eq_some_iff.mp hcreate
      obtain ⟨⟨agent, r⟩, hagent, hcreate⟩ := Option.bind_eq_some_iff.mp hcreate
      obtain ⟨maxAgeTicks, -, hcreate⟩ := Option.bind_eq_some_iff.mp hcreate
      obtain ⟨-, rfl⟩ := Prod.mk.inj (Option.some.inj hcreate)
      have hfamilies : r.families = s.families := (parentAgent_spec hagent).1.families
      show s.families.length ≤ (r.families ++ [_]).length ∧ (_ → ∀ f ∈ r.families ++ [_], f.isActive = true)
      rw [hfamilies]
      refine ⟨by simp, fun hactive f hf => ?_⟩
      rcases List.mem_append.mp hf with hf | hf
      · exact hactive f hf
      · rw [List.mem_singleton.mp hf]
  | spawnChild req =>
      obtain ⟨⟨child, t'⟩, hspawn, rfl⟩ := Option.map_eq_some_iff.mp h
      obtain ⟨r, parent, row, hhires, -, -, -, -, rfl⟩ := spawnChild_spec hspawn
      show s.families.length ≤ r.families.length ∧ (_ → ∀ f ∈ r.families, f.isActive = true)
      rw [hhires.families]
      exact ⟨le_rfl, id⟩
  | updateFamilyPolicy id patch now =>
      obtain ⟨family, -, h⟩ := Option.bind_eq_some_iff.mp h
      obtain ⟨maxAge, -, h⟩ := Option.bind_eq_some_iff.mp h
      obtain ⟨cohesion, -, h⟩ := Option.bind_eq_some_iff.mp h
      obtain rfl := Option.some.inj h
      refine ⟨(List.length_map _).ge, fun hactive f hf => ?_⟩
      obtain ⟨f', hf', rfl⟩ := List.mem_map.mp hf
      have hkept := hactive f' hf'
      split <;> exact hkept
  | updateMemberLife id goals dreams structuredThinking =>
      obtain ⟨_, -, h⟩ := Option.bind_eq_some_iff.mp h
      obtain rfl := Option.some.inj h
      exact ⟨le_rfl, fun hactive => hactive⟩
  | lifeTick req =>
      obtain ⟨⟨proof, t'⟩, htick, rfl⟩ := Option.map_eq_some_iff.mp h
      rw [(lifeTick_spec htick hs).2.2.1]
      exact ⟨le_rfl, fun hactive => hactive⟩
  | work jobs =>
      obtain rfl := Option.some.inj h
      exact ⟨le_rfl, fun hactive => hactive⟩

/-- The export of the city is a graph, in whatever order the members come. -/
def Store.ExportsGraph (s : Store) : Prop := ∀ order, (s.exportGraph order).Proper

/-- Agents of their own are enough. -/
theorem exportsGraph_of_distinct (h : (system tiers).Reachable s) (hdistinct : s.Distinct) : s.ExportsGraph := by
  intro order
  refine (proper_iff h).mpr ((nodes_nodup_iff (inv_of_reachable h)).mpr fun m m' hm hm' hagent => ?_)
  exact List.inj_on_of_nodup_map hdistinct hm.1 hm'.1 hagent

/-- Active families are listed while they are few. -/
theorem mem_listRecent {family : FamilyModel} (hactive : ∀ f ∈ s.families, f.isActive = true)
    (hfew : s.families.length ≤ 50) (hf : family ∈ s.families) : family ∈ s.listRecent := by
  unfold listRecent
  rw [List.filter_eq_self.mpr hactive, List.take_of_length_le]
  · exact Select.mem_orderByDesc.mpr hf
  · rwa [(Select.orderByDesc_perm _ _).length_eq]

/-- With few families agents of their own are needed. -/
theorem distinct_of_exportsGraph (hs : s.Inv) (hactive : ∀ f ∈ s.families, f.isActive = true)
    (hfew : s.families.length ≤ 50) (h : s.ExportsGraph) : s.Distinct := by
  have hexported (m) (hm : m ∈ s.members) : s.Exported m := by
    obtain ⟨family, hf, hid⟩ := hs.wellFormed.family_mem m.kin (kin_mem_lineage hm)
    exact ⟨hm, family, mem_listRecent hactive hfew hf, hid⟩
  have hmembers : s.members.Nodup := hs.ancestry.in_order.imp fun hlt heq => hlt.ne (congrArg _ heq)
  refine (List.nodup_map_iff_inj_on hmembers).mpr fun m hm m' hm' hagent => ?_
  exact (nodes_nodup_iff hs).mp (h []).distinct m m' (hexported m hm) (hexported m' hm') hagent

/-- **In a run that gives no family the agent of a member, the export of every city is a graph.** While there are
no more than the 50 families that are listed, it is so in no other run. -/
theorem export_throughout {s₀ : Store} {calls : List Call} (h₀ : (system tiers).init s₀)
    (h : (system tiers).exec s₀ calls = some s) :
    ((system tiers).Meets newFounder s₀ calls → (system tiers).Throughout Store.ExportsGraph s₀ calls) ∧
      (s.families.length ≤ 50 → (system tiers).Throughout Store.ExportsGraph s₀ calls →
        (system tiers).Meets newFounder s₀ calls) := by
  have hstart : s₀.Distinct := by
    unfold Store.Distinct
    rw [h₀.members]
    exact List.nodup_nil
  have hdistinct : (system tiers).Throughout Store.Distinct s₀ calls ↔ (system tiers).Meets newFounder s₀ calls :=
    Runs.System.throughout_iff (fun u c v hinv hu hstep => ⟨call_inv hinv hstep, distinct_step_iff hinv hu hstep⟩)
      (inv_of_founding h₀) hstart h
  constructor
  · intro hmeets pre post u hcalls hpre
    exact exportsGraph_of_distinct (Runs.System.reachable_of_exec h₀ hpre) (hdistinct.mpr hmeets pre post u hcalls hpre)
  · intro hfew hgraph
    refine hdistinct.mp fun pre post u hcalls hpre => ?_
    have hreachable := Runs.System.reachable_of_exec h₀ hpre
    have hactive : u.Inv ∧ ∀ f ∈ u.families, f.isActive = true := by
      refine hreachable.invariant (I := fun v => v.Inv ∧ ∀ f ∈ v.families, f.isActive = true)
        (fun v hv => ⟨inv_of_founding hv, fun f hf => ?_⟩)
        fun v c w hv _ hcall => ⟨call_inv hv.1 hcall, (call_families hv.1 hcall).2 hv.2⟩
      rw [hv.families] at hf
      cases hf
    have hrest : (system tiers).exec u post = some s := by
      rw [hcalls, Runs.System.exec_append, hpre] at h
      exact h
    have hmore : s.Inv ∧ u.families.length ≤ s.families.length :=
      (Runs.System.run_of_exec hrest).invariant (I := fun v => v.Inv ∧ u.families.length ≤ v.families.length)
        (fun v c w hv _ hcall => ⟨call_inv hv.1 hcall, hv.2.trans (call_families hv.1 hcall).1⟩) ⟨hactive.1, le_rfl⟩
    exact distinct_of_exportsGraph hactive.1 hactive.2 (hmore.2.trans hfew) (hgraph pre post u hcalls hpre)

/-- A founder with a child, and another family. -/
def mossAndFern : List Call :=
  [.createFamily { name := "Moss" } 1, .spawnChild { familyId := 2, name := "Ivy" }, .createFamily { name := "Fern" } 2]

/-- All three have agents of their own. -/
theorem export_mossAndFern : (system ⟨"large", "small"⟩).Throughout Store.ExportsGraph emptyCity mossAndFern := by
  have hex : ((system ⟨"large", "small"⟩).exec emptyCity mossAndFern).any (fun _ => true) = true := by
    decide +kernel
  obtain ⟨s, hrun, -⟩ := Runs.System.exists_of_exec hex
  exact (export_throughout init_emptyCity hrun).1 (by decide +kernel)

/-- **A family that is founded with the founder of another** gets a second node under the same id. -/
theorem export_doubles_node : ¬ ∀ tiers s order, (system tiers).Reachable s → (s.exportGraph order).Proper := by
  intro hall
  have hex : ((system ⟨"large", "small"⟩).exec emptyCity
      [.createFamily { name := "Moss" } 1, .createFamily { name := "Fern", parentAgentId := some 1 } 2]).any (fun s =>
      (s.exportGraph []).nodes.map (·.id) = [1, 1]) = true := by
    decide +kernel
  obtain ⟨s, hrun, hnodes⟩ := Runs.System.exists_of_exec hex
  have hproper := hall _ s [] (Runs.System.reachable_of_exec init_emptyCity hrun)
  have hdistinct := hproper.distinct
  rw [of_decide_eq_true hnodes] at hdistinct
  exact absurd hdistinct (by decide)

end Persola.City
