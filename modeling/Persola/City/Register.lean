import Persola.City.LifeTick
import Persola.Lib.Lineage
import Persola.Lib.Table

/-!
# `City.Register` — the tables as a register of kin

`Store.lineage` reads a register of kin off the rows of `family_members`. The invariant `Store.Inv` says that
this register is well formed and that the tables around it hang together; founding, spawning and the calls
that only edit rows keep it. What these calls do to the other tables is said once, by `Store.Hires`: agents
and personas are added or edited, and an agent keeps its name.
-/

namespace Persola.City

open Agent (AgentId AgentModel)
open Persona (PersonaId PersonaModel PersonaProfile)
open Lineage (Kin WellFormed)

variable {tiers : ModelTier} {s r t : Store} {m : FamilyMemberModel}

/-- A member as one of the kin. -/
def FamilyMemberModel.kin (m : FamilyMemberModel) : Kin MemberId FamilyId where
  id := m.id
  family := m.familyId
  head := m.roleInFamily = .parent
  under := m.parentMemberId
  heirOf := m.successorOfId
  generation := m.generation
  alive := m.lifeStatus = .alive

/-- The activity flag, the life status and the time of death of a member agree. -/
structure FamilyMemberModel.Vital (m : FamilyMemberModel) : Prop where
  active_iff : m.isActive = true ↔ m.lifeStatus = .alive
  alive_iff : m.lifeStatus = .alive ↔ m.deceasedAt = none

theorem FamilyMemberModel.Vital.living (h : m.Vital) : m.living = m.kin.alive := by
  unfold FamilyMemberModel.living FamilyMemberModel.kin
  cases hstatus : m.lifeStatus <;> simp [h.active_iff, hstatus]

theorem FamilyMemberModel.Vital.living_iff (h : m.Vital) : m.living = true ↔ m.lifeStatus = .alive := by
  rw [h.living]
  exact decide_eq_true_iff

theorem FamilyMemberModel.Vital.die (now : Time) : (m.die now).Vital :=
  ⟨by simp [FamilyMemberModel.die], by simp [FamilyMemberModel.die]⟩

namespace Store

/-- The register of all members. -/
def lineage (s : Store) : List (Kin MemberId FamilyId) := s.members.map (·.kin)

/-- The ids of the families. -/
def familyIds (s : Store) : Set FamilyId := {i | ∃ f ∈ s.families, f.id = i}

/-- The members of a family with role parent, dead ones included. -/
def parentRows (s : Store) (id : FamilyId) : List FamilyMemberModel :=
  (s.membersOf id).filter (·.roleInFamily = .parent)

/-- The living members of a family with role parent. -/
def livingParents (s : Store) (id : FamilyId) : List FamilyMemberModel :=
  (s.parentRows id).filter (·.living)

/-- The tables hang together. -/
structure Tables (s : Store) : Prop where
  family_lt : ∀ f ∈ s.families, f.id < s.fresh
  families_nodup : (s.families.map (·.id)).Nodup
  member_lt : ∀ m ∈ s.members, m.id < s.fresh
  agent_lt : ∀ a ∈ s.agents, a.id < s.fresh
  hired : ∀ m ∈ s.members, (s.getAgent m.agentId).isSome
  vital : ∀ m ∈ s.members, m.Vital

/-- **The invariant of the city.** -/
structure Inv (s : Store) : Prop where
  tables : s.Tables
  wellFormed : WellFormed s.familyIds s.lineage

theorem mem_membersOf {id : FamilyId} : m ∈ s.membersOf id ↔ m ∈ s.members ∧ m.familyId = id := by
  simp [membersOf]

theorem kin_mem_lineage (h : m ∈ s.members) : m.kin ∈ s.lineage := List.mem_map_of_mem h

theorem kin_lt (h : s.Tables) : ∀ k ∈ s.lineage, k.id < s.fresh := by
  intro k hk
  obtain ⟨m, hm, rfl⟩ := List.mem_map.mp hk
  exact h.member_lt m hm

theorem living_lineage (h : ∀ m ∈ s.members, m.Vital) (id : FamilyId) :
    Lineage.living s.lineage id = (s.livingOf id).length := by
  unfold Lineage.living lineage livingOf membersOf
  rw [List.countP_map, List.filter_filter, ← List.countP_eq_length_filter]
  refine List.countP_congr fun m hm => ?_
  rw [(h m hm).living, Bool.and_comm]
  rfl

theorem heads_lineage (h : ∀ m ∈ s.members, m.Vital) (id : FamilyId) :
    Lineage.heads s.lineage id = (s.livingParents id).length := by
  unfold Lineage.heads lineage livingParents parentRows membersOf
  rw [List.countP_map, List.filter_filter, List.filter_filter, ← List.countP_eq_length_filter]
  refine List.countP_congr fun m hm => ?_
  rw [(h m hm).living, Bool.and_comm _ (decide (m.familyId = id)), Bool.and_comm m.kin.alive]
  rfl

theorem inv_of_founding (h : s.Founding) : s.Inv where
  tables :=
    { family_lt := by simp [h.families]
      families_nodup := by simp [h.families]
      member_lt := by simp [h.members]
      agent_lt := h.agents
      hired := by simp [h.members]
      vital := by simp [h.members] }
  wellFormed :=
    { sorted := by simp [lineage, h.members]
      head_iff := by simp [lineage, h.members]
      under_earlier := by simp [lineage, h.members]
      heirOf_earlier := by simp [lineage, h.members]
      family_mem := by simp [lineage, h.members]
      heirs_eq := by simp [lineage, h.members]
      heads_eq := by simp [familyIds, h.families] }

theorem getAgent_id {i : AgentId} {a : AgentModel} (h : s.getAgent i = some a) : a.id = i :=
  Table.key_of_find? h

theorem getFamily_id {i : FamilyId} {f : FamilyModel} (h : s.getFamily i = some f) : f.id = i :=
  Table.key_of_find? h

theorem mem_of_scalarOneOrNone {α : Type*} {l : List α} {a : α}
    (h : scalarOneOrNone l = some (some a)) : a ∈ l := by
  cases l with
  | nil => simp [scalarOneOrNone] at h
  | cons b rest =>
      cases rest with
      | nil =>
          obtain rfl : b = a := Option.some.inj (Option.some.inj h)
          exact List.mem_singleton_self _
      | cons c rest => simp [scalarOneOrNone] at h

/-- The row `get_parent` answers is a member of the family. -/
theorem mem_of_getParent {id : FamilyId} (h : s.getParent id = some (some m)) : m ∈ s.membersOf id := by
  unfold getParent at h
  obtain ⟨alive, halive, h⟩ := Option.bind_eq_some_iff.mp h
  cases alive with
  | some parent =>
      obtain rfl : parent = m := Option.some.inj (Option.some.inj h)
      have hmem := mem_of_scalarOneOrNone halive
      exact List.mem_of_mem_filter (List.mem_of_mem_filter hmem)
  | none =>
      have hmem := mem_of_scalarOneOrNone h
      exact List.mem_of_mem_filter hmem

/-! ## Agents and personas -/

/-- `t` is `s` with agents and personas added or edited; agents keep their names. -/
structure Hires (s t : Store) : Prop where
  families : t.families = s.families
  members : t.members = s.members
  jobs : t.jobs = s.jobs
  fresh : s.fresh ≤ t.fresh
  agents : ∀ i a, s.getAgent i = some a → ∃ b, t.getAgent i = some b ∧ b.name = a.name
  agent_lt : (∀ a ∈ s.agents, a.id < s.fresh) → ∀ a ∈ t.agents, a.id < t.fresh

theorem Hires.refl (s : Store) : s.Hires s where
  families := rfl
  members := rfl
  jobs := rfl
  fresh := le_rfl
  agents := fun _ a ha => ⟨a, ha, rfl⟩
  agent_lt := id

theorem Hires.trans (h : s.Hires r) (h' : r.Hires t) : s.Hires t where
  families := h'.families.trans h.families
  members := h'.members.trans h.members
  jobs := h'.jobs.trans h.jobs
  fresh := h.fresh.trans h'.fresh
  agents := by
    intro i a ha
    obtain ⟨b, hb, hname⟩ := h.agents i a ha
    obtain ⟨c, hc, hname'⟩ := h'.agents i b hb
    exact ⟨c, hc, hname'.trans hname⟩
  agent_lt := h'.agent_lt ∘ h.agent_lt

theorem Hires.isSome (h : s.Hires t) {i : AgentId} (hi : (s.getAgent i).isSome) :
    (t.getAgent i).isSome := by
  obtain ⟨a, ha⟩ := Option.isSome_iff_exists.mp hi
  obtain ⟨b, hb, -⟩ := h.agents i a ha
  simp [hb]

theorem Hires.lineage (h : s.Hires t) : t.lineage = s.lineage := by
  unfold Store.lineage
  rw [h.members]

theorem Hires.familyIds (h : s.Hires t) : t.familyIds = s.familyIds := by
  unfold Store.familyIds
  rw [h.families]

theorem Hires.tables (h : s.Hires t) (hs : s.Tables) : t.Tables where
  family_lt := fun f hf => (hs.family_lt f (h.families ▸ hf)).trans_le h.fresh
  families_nodup := by
    rw [h.families]
    exact hs.families_nodup
  member_lt := fun m hm => (hs.member_lt m (h.members ▸ hm)).trans_le h.fresh
  agent_lt := h.agent_lt hs.agent_lt
  hired := fun m hm => h.isSome (hs.hired m (h.members ▸ hm))
  vital := fun m hm => hs.vital m (h.members ▸ hm)

theorem Hires.inv (h : s.Hires t) (hs : s.Inv) : t.Inv where
  tables := h.tables hs.tables
  wellFormed := by
    rw [h.lineage, h.familyIds]
    exact hs.wellFormed

theorem createPersona_hires {name description model : String} {knobs : Persona.Knob → ℚ}
    {temperature : ℚ} {maxTokens : ℤ} :
    s.Hires (s.createPersona name description knobs model temperature maxTokens).2 where
  families := rfl
  members := rfl
  jobs := rfl
  fresh := Nat.le_succ _
  agents := fun _ a ha => ⟨a, ha, rfl⟩
  agent_lt := fun h a ha => (h a ha).trans (Nat.lt_succ_self _)

theorem setPersona_hires {id : PersonaId} {f : PersonaModel → PersonaModel} :
    s.Hires (s.setPersona id f) :=
  { Hires.refl s with agents := fun _ a ha => ⟨a, ha, rfl⟩ }

theorem createAgent_hires {name model : String} {persona : PersonaId} {profile : PersonaProfile}
    {tools : List String} : s.Hires (s.createAgent name model persona profile tools).2 where
  families := rfl
  members := rfl
  jobs := rfl
  fresh := Nat.le_succ _
  agents := by
    intro i a ha
    refine ⟨a, ?_, rfl⟩
    have ha' : s.agents.find? (·.id = i) = some a := ha
    simp [createAgent, getAgent, List.find?_append, ha']
  agent_lt := by
    intro h a ha
    rcases List.mem_append.mp ha with hold | hnew
    · exact (h a hold).trans (Nat.lt_succ_self _)
    · rw [List.mem_singleton.mp hnew]
      exact Nat.lt_succ_self _

theorem createAgent_isSome {name model : String} {persona : PersonaId} {profile : PersonaProfile}
    {tools : List String} :
    ((s.createAgent name model persona profile tools).2.getAgent
      (s.createAgent name model persona profile tools).1.id).isSome := by
  simp [createAgent, getAgent]

/-- Switching an agent on or off. -/
theorem setAgent_hires {id : AgentId} {f : AgentModel → AgentModel} (hid : ∀ a, (f a).id = a.id)
    (hname : ∀ a, (f a).name = a.name) : s.Hires (s.setAgent id f) where
  families := rfl
  members := rfl
  jobs := rfl
  fresh := le_rfl
  agents := by
    intro i a ha
    have hget : (s.setAgent id f).getAgent i = (s.getAgent i).map fun b => if i = id then f b else b :=
      Table.find?_modify hid
    refine ⟨if i = id then f a else a, ?_, ?_⟩
    · rw [hget, ha, Option.map_some]
    · split
      · exact hname a
      · rfl
  agent_lt := by
    intro h a ha
    obtain ⟨b, hb, rfl⟩ := List.mem_map.mp ha
    split
    · rw [hid]
      exact h b hb
    · exact h b hb

/-! ## Adding and editing rows -/

theorem lineage_createMember :
    (s.createMember m).2.lineage = s.lineage ++ [{ m.kin with id := s.fresh }] := by
  simp [createMember, lineage, FamilyMemberModel.kin]

theorem Tables.createMember (h : s.Tables) (hagent : (s.getAgent m.agentId).isSome) (hvital : m.Vital) :
    (s.createMember m).2.Tables where
  family_lt := fun f hf => (h.family_lt f hf).trans (Nat.lt_succ_self _)
  families_nodup := h.families_nodup
  member_lt := by
    intro m' hm'
    rcases List.mem_append.mp hm' with hold | hnew
    · exact (h.member_lt m' hold).trans (Nat.lt_succ_self _)
    · rw [List.mem_singleton.mp hnew]
      exact Nat.lt_succ_self _
  agent_lt := fun a ha => (h.agent_lt a ha).trans (Nat.lt_succ_self _)
  hired := by
    intro m' hm'
    rcases List.mem_append.mp hm' with hold | hnew
    · exact h.hired m' hold
    · rw [List.mem_singleton.mp hnew]
      exact hagent
  vital := by
    intro m' hm'
    rcases List.mem_append.mp hm' with hold | hnew
    · exact h.vital m' hold
    · rw [List.mem_singleton.mp hnew]
      exact ⟨hvital.active_iff, hvital.alive_iff⟩

theorem Tables.addFamily (h : s.Tables) {f : FamilyModel} (hid : f.id = s.fresh) :
    ({ s with families := s.families ++ [f], fresh := s.fresh + 1 } : Store).Tables where
  family_lt := by
    intro g hg
    rcases List.mem_append.mp hg with hold | hnew
    · exact (h.family_lt g hold).trans (Nat.lt_succ_self _)
    · rw [List.mem_singleton.mp hnew, hid]
      exact Nat.lt_succ_self _
  families_nodup := by
    rw [List.map_append, List.map_singleton, hid]
    refine h.families_nodup.append (List.nodup_singleton _) ?_
    rw [List.disjoint_singleton]
    intro hmem
    obtain ⟨g, hg, hgid⟩ := List.mem_map.mp hmem
    exact (h.family_lt g hg).ne hgid
  member_lt := fun m hm => (h.member_lt m hm).trans (Nat.lt_succ_self _)
  agent_lt := fun a ha => (h.agent_lt a ha).trans (Nat.lt_succ_self _)
  hired := h.hired
  vital := h.vital

/-- Edits of member rows that leave the kin alone keep the invariant. -/
theorem Inv.mapMembers (h : s.Inv) {f : FamilyMemberModel → FamilyMemberModel}
    (hkin : ∀ m, (f m).kin = m.kin) (hagent : ∀ m, (f m).agentId = m.agentId)
    (hvital : ∀ m, m.Vital → (f m).Vital) : ({ s with members := s.members.map f } : Store).Inv where
  tables :=
    { family_lt := h.tables.family_lt
      families_nodup := h.tables.families_nodup
      member_lt := by
        intro m' hm'
        obtain ⟨m, hm, rfl⟩ := List.mem_map.mp hm'
        have hid : (f m).id = m.id := congrArg Kin.id (hkin m)
        rw [hid]
        exact h.tables.member_lt m hm
      agent_lt := h.tables.agent_lt
      hired := by
        intro m' hm'
        obtain ⟨m, hm, rfl⟩ := List.mem_map.mp hm'
        rw [hagent]
        exact h.tables.hired m hm
      vital := by
        intro m' hm'
        obtain ⟨m, hm, rfl⟩ := List.mem_map.mp hm'
        exact hvital m (h.tables.vital m hm) }
  wellFormed := by
    have hlineage : ({ s with members := s.members.map f } : Store).lineage = s.lineage := by
      simp [lineage, hkin]
    rw [hlineage]
    exact h.wellFormed

/-- Edits of some of the rows, likewise. -/
theorem Inv.editMembers (h : s.Inv) {P : FamilyMemberModel → Prop} [DecidablePred P]
    {f : FamilyMemberModel → FamilyMemberModel} (hkin : ∀ m, (f m).kin = m.kin)
    (hagent : ∀ m, (f m).agentId = m.agentId) (hvital : ∀ m, m.Vital → (f m).Vital) :
    ({ s with members := s.members.map fun m => if P m then f m else m } : Store).Inv := by
  refine h.mapMembers (fun m => ?_) (fun m => ?_) fun m hm => ?_
  · split
    · exact hkin m
    · rfl
  · split
    · exact hagent m
    · rfl
  · split
    · exact hvital m hm
    · exact hm

/-- So do edits of family rows that keep the ids. -/
theorem Inv.mapFamilies (h : s.Inv) {f : FamilyModel → FamilyModel} (hid : ∀ a, (f a).id = a.id) :
    ({ s with families := s.families.map f } : Store).Inv where
  tables :=
    { h.tables with
      family_lt := by
        intro a ha
        obtain ⟨b, hb, rfl⟩ := List.mem_map.mp ha
        rw [hid]
        exact h.tables.family_lt b hb
      families_nodup := by
        rw [List.map_map]
        simpa only [Function.comp_def, hid] using h.tables.families_nodup
      hired := h.tables.hired }
  wellFormed := by
    have hids : ({ s with families := s.families.map f } : Store).familyIds = s.familyIds := by
      ext i
      simp [familyIds, hid]
    rw [hids]
    exact h.wellFormed

end Store

/-! ## Founding, spawning and edits -/

open Store

theorem parentPersona_hires {req : CreateFamily} {overrides : KnobMap} {p : PersonaModel}
    (h : parentPersona s req overrides = some (p, t)) : s.Hires t := by
  unfold parentPersona at h
  split at h
  · obtain ⟨-, rfl⟩ := Prod.mk.inj (Option.some.inj h)
    exact createPersona_hires
  · obtain ⟨persona, -, hrest⟩ := Option.bind_eq_some_iff.mp h
    obtain ⟨-, rfl⟩ := Prod.mk.inj (Option.some.inj hrest)
    exact setPersona_hires

theorem parentAgent_spec {req : CreateFamily} {overrides : KnobMap} {tags : List String}
    {a : AgentModel} (h : parentAgent tiers s req overrides tags = some (a, t)) :
    s.Hires t ∧ (t.getAgent a.id).isSome := by
  unfold parentAgent at h
  split at h
  · obtain ⟨agent, hagent, hrest⟩ := Option.bind_eq_some_iff.mp h
    obtain ⟨rfl, rfl⟩ := Prod.mk.inj (Option.some.inj hrest)
    rw [← getAgent_id hagent] at hagent
    exact ⟨Hires.refl _, by rw [hagent]; rfl⟩
  · obtain ⟨⟨persona, r⟩, hpersona, hrest⟩ := Option.bind_eq_some_iff.mp h
    obtain ⟨profile, -, hrest⟩ := Option.bind_eq_some_iff.mp hrest
    obtain ⟨rfl, rfl⟩ := Prod.mk.inj (Option.some.inj hrest)
    exact ⟨((parentPersona_hires hpersona).trans setPersona_hires).trans createAgent_hires,
      createAgent_isSome⟩

/-- What `create_family` writes: the parent's agent, the family and its founder. -/
theorem createFamily_spec {req : CreateFamily} {now : Time} {id : FamilyId}
    (h : createFamily tiers s req now = some (id, t)) :
    ∃ (r : Store) (f : FamilyModel) (m : FamilyMemberModel),
      s.Hires r ∧ f.id = r.fresh ∧ (r.getAgent m.agentId).isSome ∧ m.Vital ∧
      m.kin = Lineage.founder f.id 0 ∧
      t = (({ r with families := r.families ++ [f], fresh := r.fresh + 1 } : Store).createMember m).2 := by
  obtain ⟨district, -, h⟩ := Option.bind_eq_some_iff.mp h
  obtain ⟨⟨agent, r⟩, hagent, h⟩ := Option.bind_eq_some_iff.mp h
  obtain ⟨maxAgeTicks, -, h⟩ := Option.bind_eq_some_iff.mp h
  obtain ⟨-, rfl⟩ := Prod.mk.inj (Option.some.inj h)
  obtain ⟨hhires, hisSome⟩ := parentAgent_spec hagent
  exact ⟨r, _, _, hhires, rfl, hisSome, ⟨by simp, by simp⟩, rfl, rfl⟩

/-- **Founding a family** keeps the invariant. -/
theorem createFamily_inv (h : s.Inv) {req : CreateFamily} {now : Time} {id : FamilyId}
    (hc : createFamily tiers s req now = some (id, t)) : t.Inv := by
  obtain ⟨r, f, m, hhires, hid, hagent, hvital, hkin, rfl⟩ := createFamily_spec hc
  have hr := hhires.inv h
  have hnew : f.id ∉ r.familyIds := fun ⟨g, hg, hgid⟩ => (hr.tables.family_lt g hg).ne (hgid.trans hid)
  have hfresh : ∀ k ∈ r.lineage, k.id < r.fresh + 1 := fun k hk =>
    (kin_lt hr.tables k hk).trans (Nat.lt_succ_self _)
  refine ⟨(hr.tables.addFamily hid).createMember hagent hvital, ?_⟩
  rw [lineage_createMember, hkin]
  convert hr.wellFormed.found hnew hfresh using 1
  · ext i
    simp [familyIds, createMember, or_comm, eq_comm]
  · rfl

theorem spawnParent_mem {req : SpawnChild} (h : spawnParent s req = some m) :
    m ∈ s.members ∧ m.familyId = req.familyId := by
  unfold spawnParent at h
  split at h
  · exact mem_membersOf.mp (List.mem_of_find?_eq_some h)
  · exact mem_membersOf.mp (mem_of_getParent (Option.join_eq_some_iff.mp h))

/-- What `spawn_child` writes: the child's persona and agent, and a child of an existing member. -/
theorem spawnChild_spec {req : SpawnChild} (h : spawnChild tiers s req = some (m, t)) :
    ∃ (r : Store) (parent child : FamilyMemberModel), s.Hires r ∧ parent ∈ s.members ∧
      (r.getAgent child.agentId).isSome ∧ child.Vital ∧ child.kin = Lineage.child parent.kin 0 ∧
      t = (r.createMember child).2 := by
  obtain ⟨family, hfamily, h⟩ := Option.bind_eq_some_iff.mp h
  obtain ⟨parent, hparent, h⟩ := Option.bind_eq_some_iff.mp h
  obtain ⟨parentAgent, -, h⟩ := Option.bind_eq_some_iff.mp h
  obtain ⟨profile, -, h⟩ := Option.bind_eq_some_iff.mp h
  obtain ⟨-, rfl⟩ := Prod.mk.inj (Option.some.inj h)
  obtain ⟨hmem, hfam⟩ := spawnParent_mem hparent
  refine ⟨_, parent, _, createPersona_hires.trans createAgent_hires, hmem, createAgent_isSome,
    ⟨by simp, by simp⟩, ?_, rfl⟩
  simp [FamilyMemberModel.kin, Lineage.child, getFamily_id hfamily, hfam]

/-- **Spawning a child** keeps the invariant. -/
theorem spawnChild_inv (h : s.Inv) {req : SpawnChild} (hc : spawnChild tiers s req = some (m, t)) :
    t.Inv := by
  obtain ⟨r, parent, child, hhires, hparent, hagent, hvital, hkin, rfl⟩ := spawnChild_spec hc
  have hr := hhires.inv h
  have hmem : parent.kin ∈ r.lineage := kin_mem_lineage (hhires.members ▸ hparent)
  refine ⟨hr.tables.createMember hagent hvital, ?_⟩
  rw [lineage_createMember, hkin]
  exact hr.wellFormed.bear hmem (kin_lt hr.tables)

theorem updateFamilyPolicy_inv (h : s.Inv) {id : FamilyId} {patch : PolicyRequest} {now : Time}
    (hc : updateFamilyPolicy s id patch now = some t) : t.Inv := by
  obtain ⟨family, -, hc⟩ := Option.bind_eq_some_iff.mp hc
  obtain ⟨maxAge, -, hc⟩ := Option.bind_eq_some_iff.mp hc
  obtain ⟨cohesion, -, hc⟩ := Option.bind_eq_some_iff.mp hc
  obtain rfl := Option.some.inj hc
  refine (h.mapFamilies fun f => ?_).editMembers (fun _ => rfl) (fun _ => rfl) fun m hm => ⟨hm.active_iff, hm.alive_iff⟩
  split <;> rfl

theorem updateMemberLife_inv (h : s.Inv) {id : MemberId} {goals dreams : Option (List String)}
    {structuredThinking : Option ℚ}
    (hc : updateMemberLife s id goals dreams structuredThinking = some t) : t.Inv := by
  obtain ⟨_, -, hc⟩ := Option.bind_eq_some_iff.mp hc
  obtain rfl := Option.some.inj hc
  exact h.editMembers (fun _ => rfl) (fun _ => rfl) fun m hm => ⟨hm.active_iff, hm.alive_iff⟩

/-! ## Edits of rows that change nobody's place -/

/-- `t` is `s` but for its families, and for the age, the limit and the mind of its members. -/
structure Store.Retouches (s t : Store) : Prop where
  agents : t.agents = s.agents
  members : ∃ f : FamilyMemberModel → FamilyMemberModel, t.members = s.members.map f ∧
    ∀ m, f m = { m with
      ageTicks := (f m).ageTicks
      maxAgeTicks := (f m).maxAgeTicks
      goals := (f m).goals
      dreams := (f m).dreams
      structuredThinking := (f m).structuredThinking
      growth := (f m).growth }

theorem updateFamilyPolicy_retouches {id : FamilyId} {patch : PolicyRequest} {now : Time}
    (hc : updateFamilyPolicy s id patch now = some t) : s.Retouches t := by
  obtain ⟨family, -, hc⟩ := Option.bind_eq_some_iff.mp hc
  obtain ⟨maxAge, -, hc⟩ := Option.bind_eq_some_iff.mp hc
  obtain ⟨cohesion, -, hc⟩ := Option.bind_eq_some_iff.mp hc
  obtain rfl := Option.some.inj hc
  refine ⟨rfl, _, rfl, fun m => ?_⟩
  split <;> rfl

theorem updateMemberLife_retouches {id : MemberId} {goals dreams : Option (List String)}
    {structuredThinking : Option ℚ}
    (hc : updateMemberLife s id goals dreams structuredThinking = some t) : s.Retouches t := by
  obtain ⟨_, -, hc⟩ := Option.bind_eq_some_iff.mp hc
  obtain rfl := Option.some.inj hc
  refine ⟨rfl, _, rfl, fun m => ?_⟩
  split <;> rfl

theorem ageFamily_retouches {family : FamilyModel} {forceAge : ℤ} :
    s.Retouches (s.ageFamily family forceAge) := by
  refine ⟨rfl, _, rfl, fun m => ?_⟩
  split <;> rfl

end Persola.City
