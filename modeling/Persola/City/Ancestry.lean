import Persola.City.Register

/-!
# `City.Ancestry` — what a life tick does to the register, and the ancestry of every reachable city

A death together with its succession is one `Lineage.succeed` of the register (`passOn_inv`), ageing changes
nothing of it, and so a whole tick keeps the invariant, the number of living members of every family and
with it the efficiency of every family (`lifeTick_passes`).
-/

namespace Persola.City

open Agent (AgentId AgentModel)
open Lineage (Kin WellFormed)
open Store

variable {tiers : ModelTier} {s r t : Store} {m heir : FamilyMemberModel} {family : FamilyModel}
  {now : Time} {p q : LifeProof} {req : TickRequest}

namespace Store

/-! ## What ageing and dying in one family leave alone -/

/-- Between `s` and `t` only members of the family `id` changed, and none was lost. -/
structure Passes (s t : Store) (id : FamilyId) : Prop where
  families : t.families = s.families
  jobs : t.jobs = s.jobs
  agents : ∀ i a, s.getAgent i = some a → ∃ b, t.getAgent i = some b ∧ b.name = a.name
  elsewhere : ∀ g, g ≠ id → t.membersOf g = s.membersOf g
  living : ∀ g, (t.livingOf g).length = (s.livingOf g).length

theorem Passes.refl (s : Store) (id : FamilyId) : s.Passes s id where
  families := rfl
  jobs := rfl
  agents := fun _ a ha => ⟨a, ha, rfl⟩
  elsewhere := fun _ _ => rfl
  living := fun _ => rfl

theorem Passes.trans {id : FamilyId} (h : s.Passes r id) (h' : r.Passes t id) : s.Passes t id where
  families := h'.families.trans h.families
  jobs := h'.jobs.trans h.jobs
  agents := by
    intro i a ha
    obtain ⟨b, hb, hname⟩ := h.agents i a ha
    obtain ⟨c, hc, hname'⟩ := h'.agents i b hb
    exact ⟨c, hc, hname'.trans hname⟩
  elsewhere := fun g hg => (h'.elsewhere g hg).trans (h.elsewhere g hg)
  living := fun g => (h'.living g).trans (h.living g)

/-- The name of a member's agent survives. -/
theorem agentName_eq (hagents : ∀ i a, s.getAgent i = some a → ∃ b, t.getAgent i = some b ∧ b.name = a.name)
    (hired : (s.getAgent m.agentId).isSome) : t.agentName m = s.agentName m := by
  obtain ⟨a, ha⟩ := Option.isSome_iff_exists.mp hired
  obtain ⟨b, hb, hname⟩ := hagents _ a ha
  simp [agentName, ha, hb, hname]

/-- Editing member rows that keep their family edits each family. -/
theorem membersOf_map {f : FamilyMemberModel → FamilyMemberModel}
    (hf : ∀ m, (f m).familyId = m.familyId) (id : FamilyId) :
    ({ s with members := s.members.map f } : Store).membersOf id = (s.membersOf id).map f := by
  unfold membersOf
  rw [List.filter_map]
  simp only [Function.comp_def, hf]

theorem membersOf_createMember (id : FamilyId) :
    (s.createMember m).2.membersOf id =
      s.membersOf id ++ if m.familyId = id then [(s.createMember m).1] else [] := by
  unfold membersOf createMember
  by_cases hid : m.familyId = id <;> simp [hid]

/-! ## Ageing -/

theorem ageFamily_inv (h : s.Inv) {forceAge : ℤ} : (s.ageFamily family forceAge).Inv := by
  exact h.editMembers (fun _ => rfl) (fun _ => rfl) fun m hm => ⟨hm.active_iff, hm.alive_iff⟩

theorem membersOf_ageFamily {forceAge : ℤ} (id : FamilyId) :
    (s.ageFamily family forceAge).membersOf id = (s.membersOf id).map fun m =>
      if m.familyId = family.id ∧ m.living then m.age family.policy forceAge else m := by
  refine membersOf_map (fun m => ?_) id
  split <;> rfl

theorem ageFamily_passes {forceAge : ℤ} : s.Passes (s.ageFamily family forceAge) family.id where
  families := rfl
  jobs := rfl
  agents := fun _ a ha => ⟨a, ha, rfl⟩
  elsewhere := by
    intro g hg
    rw [membersOf_ageFamily]
    refine (List.map_congr_left fun m hm => if_neg ?_).trans (List.map_id _)
    rintro ⟨hfam, -⟩
    exact hg ((mem_membersOf.mp hm).2.symm.trans hfam)
  living := by
    intro g
    unfold livingOf
    rw [membersOf_ageFamily, List.filter_map, List.length_map]
    congr 2
    funext m
    simp only [Function.comp_def]
    split <;> rfl

/-! ## Death -/

theorem mem_members_unique (h : s.Inv) {m' : FamilyMemberModel} (hm : m ∈ s.members)
    (hm' : m' ∈ s.members) (hid : m.id = m'.id) : m = m' := by
  have hnodup : (s.members.map (·.id)).Nodup := by
    simpa [lineage, Function.comp_def, FamilyMemberModel.kin] using h.wellFormed.nodup
  exact List.inj_on_of_nodup_map hnodup hm hm' hid

theorem lineage_die (i : MemberId) :
    (s.setMember i (·.die now)).lineage = Lineage.kill s.lineage i := by
  unfold lineage setMember Lineage.kill
  rw [List.map_map, List.map_map]
  refine List.map_congr_left fun m _ => ?_
  by_cases hid : m.id = i <;> simp [hid, FamilyMemberModel.kin, FamilyMemberModel.die]

theorem tables_die (h : s.Tables) (i : MemberId) : (s.setMember i (·.die now)).Tables where
  family_lt := h.family_lt
  families_nodup := h.families_nodup
  member_lt := by
    intro m' hm'
    obtain ⟨m, hm, rfl⟩ := List.mem_map.mp hm'
    have hlt := h.member_lt m hm
    split <;> exact hlt
  agent_lt := h.agent_lt
  hired := by
    intro m' hm'
    obtain ⟨m, hm, rfl⟩ := List.mem_map.mp hm'
    have hagent := h.hired m hm
    split <;> exact hagent
  vital := by
    intro m' hm'
    obtain ⟨m, hm, rfl⟩ := List.mem_map.mp hm'
    split
    · exact FamilyMemberModel.Vital.die now
    · exact h.vital m hm

theorem die_hires : (s.setMember m.id (·.die now)).Hires (s.bury m now) :=
  setAgent_hires (fun _ => rfl) (fun _ => rfl)

theorem membersOf_die (h : s.Inv) (hm : m ∈ s.members) {g : FamilyId} (hg : g ≠ m.familyId) :
    (s.setMember m.id (·.die now)).membersOf g = s.membersOf g := by
  refine (membersOf_map (fun m' => ?_) g).trans ?_
  · split <;> rfl
  · refine (List.map_congr_left fun m' hm' => if_neg fun hid => ?_).trans (List.map_id _)
    obtain ⟨hmem, hfam⟩ := mem_membersOf.mp hm'
    exact hg (mem_members_unique h hmem hm hid ▸ hfam.symm)

end Store

/-! ## Succession -/

/-- What `_succeed_member` writes: the heir's persona and agent, and the heir. -/
theorem succeedMember_spec (h : s.succeedMember tiers m family = some (heir, t))
    (hfam : m.familyId = family.id) :
    ∃ (r : Store) (parent : Option FamilyMemberModel) (heir : FamilyMemberModel),
      s.getParent family.id = some parent ∧ s.Hires r ∧ (r.getAgent heir.agentId).isSome ∧ heir.Vital ∧
      heir.kin = Lineage.heir m.kin (parentForLineage m parent) 0 ∧ t = (r.createMember heir).2 := by
  obtain ⟨parent, hparent, h⟩ := Option.bind_eq_some_iff.mp h
  obtain ⟨profile, -, h⟩ := Option.bind_eq_some_iff.mp h
  obtain ⟨-, rfl⟩ := Prod.mk.inj (Option.some.inj h)
  refine ⟨_, parent, _, hparent, createPersona_hires.trans createAgent_hires, createAgent_isSome,
    ⟨by simp, by simp⟩, ?_, rfl⟩
  simp [FamilyMemberModel.kin, Lineage.heir, hfam]

/-- What one death writes, and how it is counted. -/
theorem passOn_spec (h : passOn tiers family now (p, s) m = some (q, t)) (hfam : m.familyId = family.id) :
    ∃ (r : Store) (parent : Option FamilyMemberModel) (heir : FamilyMemberModel),
      (s.bury m now).getParent family.id = some parent ∧ (s.setMember m.id (·.die now)).Hires r ∧
      (r.getAgent heir.agentId).isSome ∧ heir.Vital ∧
      heir.kin = Lineage.heir m.kin (parentForLineage m parent) 0 ∧ t = (r.createMember heir).2 ∧
      q.died = p.died + 1 ∧ q.born = p.born + 1 := by
  obtain ⟨⟨heir, u⟩, hsucceed, h⟩ := Option.bind_eq_some_iff.mp h
  obtain ⟨rfl, rfl⟩ := Prod.mk.inj (Option.some.inj h)
  obtain ⟨r, parent, heir, hparent, hhires, hrest⟩ := succeedMember_spec hsucceed hfam
  obtain ⟨hagent, hvital, hkin, ht⟩ := hrest
  exact ⟨r, parent, heir, hparent, die_hires.trans hhires, hagent, hvital, hkin, ht, rfl, rfl⟩

/-- The heir is attached to a member of the family: a parent, or the member it succeeds. -/
theorem parentForLineage_mem {parent : Option FamilyMemberModel}
    (hparent : (s.bury m now).getParent family.id = some parent) (hm : m ∈ s.members)
    (hfam : m.familyId = family.id) :
    ∃ p ∈ s.members, p.id = parentForLineage m parent ∧ p.familyId = m.familyId := by
  cases parent with
  | none => exact ⟨m, hm, rfl, rfl⟩
  | some parent =>
      obtain ⟨hmem, hparentFam⟩ := mem_membersOf.mp (mem_of_getParent hparent)
      obtain ⟨p, hp, rfl⟩ := List.mem_map.mp hmem
      -- the fallback of `get_parent` may answer a dead parent, even `m` itself: then the heir is under `m`
      by_cases halive : (if p.id = m.id then p.die now else p).lifeStatus = .alive
      · refine ⟨p, hp, ?_, ?_⟩
        · simp only [parentForLineage, if_pos halive]
          split <;> rfl
        · rw [hfam, ← hparentFam]
          split <;> rfl
      · exact ⟨m, hm, by simp [parentForLineage, halive], rfl⟩

/-- **A death and its succession** are one succession of the register. -/
theorem passOn_lineage (h : passOn tiers family now (p, s) m = some (q, t)) (hs : s.Inv)
    (hm : m ∈ s.members) (hfam : m.familyId = family.id) :
    ∃ (k : Kin MemberId FamilyId) (i : MemberId), k ∈ s.lineage ∧ k.family = m.kin.family ∧
      (∀ k ∈ s.lineage, k.id < i) ∧ t.lineage = Lineage.succeed s.lineage m.kin k.id i := by
  obtain ⟨r, parent, heir, hparent, hhires, -, -, hkin, rfl, -, -⟩ := passOn_spec h hfam
  obtain ⟨k, hk, hid, hkfam⟩ := parentForLineage_mem hparent hm hfam
  refine ⟨k.kin, r.fresh, kin_mem_lineage hk, hkfam, ?_, ?_⟩
  · exact fun k hk => (kin_lt hs.tables k hk).trans_le hhires.fresh
  · rw [lineage_createMember, hkin, hhires.lineage, lineage_die, ← hid]
    rfl

theorem passOn_inv (h : passOn tiers family now (p, s) m = some (q, t)) (hs : s.Inv)
    (hm : m ∈ s.members) (hliving : m.living) (hfam : m.familyId = family.id) : t.Inv := by
  obtain ⟨k, i, hk, hkfam, hi, hlineage⟩ := passOn_lineage h hs hm hfam
  obtain ⟨r, parent, heir, -, hhires, hagent, hvital, -, rfl, -, -⟩ := passOn_spec h hfam
  have halive : m.kin.alive = true := (hs.tables.vital m hm).living.symm.trans hliving
  refine ⟨(hhires.tables (tables_die hs.tables m.id)).createMember hagent hvital, ?_⟩
  have hids : (r.createMember heir).2.familyIds = s.familyIds := hhires.familyIds
  rw [hlineage, hids]
  exact hs.wellFormed.succeed (kin_mem_lineage hm) halive (.inr ⟨hk, hkfam⟩) hi

theorem passOn_passes (h : passOn tiers family now (p, s) m = some (q, t)) (hs : s.Inv)
    (hm : m ∈ s.members) (hliving : m.living) (hfam : m.familyId = family.id) :
    s.Passes t family.id := by
  have ht := passOn_inv h hs hm hliving hfam
  obtain ⟨k, i, -, -, -, hlineage⟩ := passOn_lineage h hs hm hfam
  obtain ⟨r, parent, heir, -, hhires, hagent, hvital, hkin, rfl, -, -⟩ := passOn_spec h hfam
  have halive : m.kin.alive = true := (hs.tables.vital m hm).living.symm.trans hliving
  refine
    { families := hhires.families
      jobs := hhires.jobs
      agents := hhires.agents
      elsewhere := ?_
      living := ?_ }
  · intro g hg
    have hheir : heir.familyId ≠ g := by
      have hheirFam : heir.familyId = m.familyId := congrArg Kin.family hkin
      exact fun heq => hg (by rw [← heq, hheirFam, hfam])
    have hsame : r.membersOf g = (s.setMember m.id (·.die now)).membersOf g := by
      unfold membersOf
      rw [hhires.members]
    rw [membersOf_createMember, if_neg hheir, List.append_nil, hsame]
    exact membersOf_die hs hm (hfam ▸ hg)
  · intro g
    rw [← living_lineage ht.tables.vital, ← living_lineage hs.tables.vital, hlineage]
    exact hs.wellFormed.living_succeed (kin_mem_lineage hm) halive

/-- The other members of the family stay as they are. -/
theorem passOn_kept (h : passOn tiers family now (p, s) m = some (q, t)) (hfam : m.familyId = family.id)
    {m' : FamilyMemberModel} (hm' : m' ∈ s.members) (hid : m'.id ≠ m.id) : m' ∈ t.members := by
  obtain ⟨r, parent, heir, -, hhires, -, -, -, rfl, -, -⟩ := passOn_spec h hfam
  refine List.mem_append_left _ ?_
  rw [hhires.members]
  exact List.mem_map.mpr ⟨m', hm', if_neg hid⟩

/-! ## A tick -/

/-- The deaths still to come in a family: distinct living members of it. -/
structure Doomed (family : FamilyModel) (rest : List FamilyMemberModel) (s : Store) : Prop where
  nodup : (rest.map (·.id)).Nodup
  mem : ∀ m ∈ rest, m ∈ s.members ∧ m.living ∧ m.familyId = family.id

theorem Doomed.passOn {rest : List FamilyMemberModel} (h : Doomed family (m :: rest) s)
    (hp : passOn tiers family now (p, s) m = some (q, t)) : Doomed family rest t where
  nodup := (List.nodup_cons.mp h.nodup).2
  mem := by
    intro m' hm'
    obtain ⟨hmem, hrest⟩ := h.mem m' (List.mem_cons_of_mem _ hm')
    have hid : m'.id ≠ m.id := fun heq =>
      (List.nodup_cons.mp h.nodup).1 (List.mem_map.mpr ⟨m', hm', heq⟩)
    exact ⟨passOn_kept hp (h.mem m (List.mem_cons_self ..)).2.2 hmem hid, hrest⟩

/-- Who dies in a family depends on its rows only. -/
theorem deaths_congr (h : t.membersOf family.id = s.membersOf family.id) :
    t.deaths family req = s.deaths family req := by
  unfold deaths rowsOf
  rw [h]

/-- The deaths of a family are due in the city as it is after ageing. -/
theorem doomed_deaths (h : s.Inv) :
    Doomed family (s.deaths family req) (s.ageFamily family req.forceAge) where
  nodup := by
    have hnodup : (s.members.map (·.id)).Nodup := by
      simpa [lineage, Function.comp_def, FamilyMemberModel.kin] using h.wellFormed.nodup
    unfold deaths rowsOf
    rw [List.map_map]
    have hids : ((Select.orderBy (fun m => req.order.idxOf m.id) (s.membersOf family.id)).map
        FamilyMemberModel.id).Nodup :=
      ((Select.orderBy_perm _ _).map _).nodup_iff.mpr (hnodup.sublist (List.filter_sublist.map _))
    exact hids.sublist (List.filter_sublist.map _)
  mem := by
    intro m hm
    obtain ⟨m₀, hm₀, rfl⟩ := List.mem_map.mp hm
    obtain ⟨hrow, hdue⟩ := List.mem_filter.mp hm₀
    obtain ⟨hmem, hfam⟩ := mem_membersOf.mp (Select.mem_orderBy.mp hrow)
    have hliving : m₀.living = true := (Bool.and_eq_true_iff.mp hdue).1
    exact ⟨List.mem_map.mpr ⟨m₀, hmem, if_pos ⟨hfam, hliving⟩⟩, hliving, hfam⟩

/-- **Rule for one family of a tick**: what each of its deaths keeps, with the deaths still to come, holds when
the tick is through with the family. -/
theorem tickFamily_rule {P : List FamilyMemberModel → LifeProof × Store → Prop}
    (hpass : ∀ {m : FamilyMemberModel} {rest : List FamilyMemberModel} {p q : LifeProof} {u v : Store},
      u.Inv → m ∈ u.members → m.living → m.familyId = family.id → P (m :: rest) (p, u) →
      passOn tiers family req.now (p, u) m = some (q, v) → P rest (q, v))
    (hs : s.Inv) (h : tickFamily tiers req (p, s) family = some (q, t))
    (hstart : P (s.deaths family req) ({ p with aged := p.aged + (s.livingOf family.id).length },
      s.ageFamily family req.forceAge)) : t.Inv ∧ P [] (q, t) := by
  let I (rest : List FamilyMemberModel) (u : LifeProof × Store) : Prop :=
    u.2.Inv ∧ Doomed family rest u.2 ∧ P rest u
  have hstep : ∀ (m : FamilyMemberModel) (rest : List FamilyMemberModel) (u v : LifeProof × Store),
      I (m :: rest) u → passOn tiers family req.now u m = some v → I rest v := by
    rintro m rest ⟨p, u⟩ ⟨q, v⟩ ⟨hinv, hdoomed, hP⟩ hone
    obtain ⟨hm, hliving, hfam⟩ := hdoomed.mem m (List.mem_cons_self ..)
    refine ⟨passOn_inv hone hinv hm hliving hfam, hdoomed.passOn hone, ?_⟩
    exact hpass hinv hm hliving hfam hP hone
  have hend := Runs.foldlM_invariant hstep (⟨ageFamily_inv hs, doomed_deaths hs, hstart⟩ : I _ _) h
  exact ⟨hend.1, hend.2.2⟩

/-- **One family of a tick** keeps the invariant, loses nobody and counts as many births as deaths. -/
theorem tickFamily_spec (h : tickFamily tiers req (p, s) family = some (q, t)) (hs : s.Inv) :
    t.Inv ∧ s.Passes t family.id ∧ (p.died = p.born → q.died = q.born) := by
  refine tickFamily_rule (P := fun _ u => s.Passes u.2 family.id ∧ (p.died = p.born → u.1.died = u.1.born))
    ?_ hs h ⟨ageFamily_passes, fun hp => hp⟩
  intro m rest p' q' u v hinv hm hliving hfam hP hpass
  obtain ⟨-, -, -, -, -, -, -, -, -, hdied, hborn⟩ := passOn_spec hpass hfam
  refine ⟨hP.1.trans (passOn_passes hpass hinv hm hliving hfam), fun hp => ?_⟩
  show q'.died = q'.born
  rw [hdied, hborn]
  exact congrArg Nat.succ (hP.2 hp)

theorem tickFamilies_nodup (h : s.Tables) : ((s.tickFamilies req).map (·.id)).Nodup := by
  have hrecent : (s.listRecent.map (·.id)).Nodup := by
    have hall : ((Select.orderByDesc (·.updatedAt) (s.families.filter (·.isActive))).map
        FamilyModel.id).Nodup :=
      ((Select.orderByDesc_perm _ _).map _).nodup_iff.mpr
        (h.families_nodup.sublist (List.filter_sublist.map _))
    exact hall.sublist ((List.take_sublist _ _).map _)
  unfold tickFamilies
  split
  · exact hrecent
  · exact hrecent.sublist ((List.take_sublist _ _).map _)

/-- **Rule for a tick**: what it keeps from family to family, with the families still to come, holds at its
end. The rows of a family it comes to are those the tick started from. -/
theorem lifeTick_rule {P : List FamilyModel → LifeProof × Store → Prop}
    (hfamily : ∀ {f : FamilyModel} {rest : List FamilyModel} {p q : LifeProof} {u v : Store}, u.Inv →
      f :: rest <:+ s.tickFamilies req → u.membersOf f.id = s.membersOf f.id → P (f :: rest) (p, u) →
      tickFamily tiers req (p, u) f = some (q, v) → P rest (q, v))
    (hs : s.Inv) (h : lifeTick tiers s req = some (q, t)) (hstart : P (s.tickFamilies req) ({}, s)) :
    t.Inv ∧ P [] (q, t) := by
  let I (rest : List FamilyModel) (u : LifeProof × Store) : Prop :=
    u.2.Inv ∧ rest <:+ s.tickFamilies req ∧ (∀ f ∈ rest, u.2.membersOf f.id = s.membersOf f.id) ∧ P rest u
  have hstep : ∀ (f : FamilyModel) (rest : List FamilyModel) (u v : LifeProof × Store),
      I (f :: rest) u → tickFamily tiers req u f = some v → I rest v := by
    rintro f rest ⟨p, u⟩ ⟨q, v⟩ ⟨hinv, hsuffix, hsame, hP⟩ htick
    obtain ⟨hinv', hpasses, -⟩ := tickFamily_spec htick hinv
    have hnodup : ((f :: rest).map (·.id)).Nodup :=
      (tickFamilies_nodup hs.tables).sublist (hsuffix.sublist.map _)
    refine ⟨hinv', (List.suffix_cons f rest).trans hsuffix, fun g hg => ?_, ?_⟩
    · have hne : g.id ≠ f.id := fun heq =>
        (List.nodup_cons.mp hnodup).1 (List.mem_map.mpr ⟨g, hg, heq⟩)
      exact (hpasses.elsewhere g.id hne).trans (hsame g (List.mem_cons_of_mem _ hg))
    · exact hfamily hinv hsuffix (hsame f (List.mem_cons_self ..)) hP htick
  have hend := Runs.foldlM_invariant hstep (⟨hs, List.suffix_refl _, fun _ _ => rfl, hstart⟩ : I _ _) h
  exact ⟨hend.1, hend.2.2.2⟩

/-- **A tick** keeps the invariant and every family's number of living members, and what it reports as
died and born is the same number. -/
theorem lifeTick_spec (h : lifeTick tiers s req = some (q, t)) (hs : s.Inv) :
    t.Inv ∧ q.died = q.born ∧ t.families = s.families ∧ t.jobs = s.jobs ∧
      ∀ id, (t.livingOf id).length = (s.livingOf id).length := by
  refine lifeTick_rule (P := fun _ u => u.1.died = u.1.born ∧ u.2.families = s.families ∧ u.2.jobs = s.jobs ∧
      ∀ id, (u.2.livingOf id).length = (s.livingOf id).length) ?_ hs h ⟨rfl, rfl, rfl, fun _ => rfl⟩
  rintro f rest p q u v hinv - - ⟨hcount, hfamilies, hjobs, hliving⟩ htick
  obtain ⟨-, hpasses, hcount'⟩ := tickFamily_spec htick hinv
  exact ⟨hcount' hcount, hpasses.families.trans hfamilies, hpasses.jobs.trans hjobs,
    fun id => (hpasses.living id).trans (hliving id)⟩

/-- **Invariants of a tick**: what ageing and every single death keep, a tick keeps. -/
theorem lifeTick_invariant {P : Store → Prop}
    (hage : ∀ {s : Store} {family : FamilyModel} {forceAge : ℤ}, s.Inv → P s → P (s.ageFamily family forceAge))
    (hpass : ∀ {s t : Store} {p q : LifeProof} {m : FamilyMemberModel} {family : FamilyModel}, s.Inv → P s →
      m ∈ s.members → m.living → m.familyId = family.id →
      passOn tiers family req.now (p, s) m = some (q, t) → P t)
    (hs : s.Inv) (hP : P s) (h : lifeTick tiers s req = some (q, t)) : P t := by
  have hend := lifeTick_rule (P := fun _ u => P u.2) ?_ hs h hP
  · exact hend.2
  · intro f rest p q u v hinv _ _ hPu htick
    have hfamily := tickFamily_rule (P := fun _ w => P w.2) ?_ hinv htick (hage hinv hPu)
    · exact hfamily.2
    · intro m rest p q w x hw hm hliving hfam hPw hone
      exact hpass hw hPw hm hliving hfam hone

/-! ## Every reachable city -/

/-- Every call keeps the invariant. -/
theorem call_inv (hs : s.Inv) {c : Call} (h : s.call tiers c = some t) : t.Inv := by
  cases c with
  | createFamily req now =>
      obtain ⟨⟨id, t'⟩, hcall, rfl⟩ := Option.map_eq_some_iff.mp h
      exact createFamily_inv hs hcall
  | spawnChild req =>
      obtain ⟨⟨child, t'⟩, hcall, rfl⟩ := Option.map_eq_some_iff.mp h
      exact spawnChild_inv hs hcall
  | updateFamilyPolicy id patch now => exact updateFamilyPolicy_inv hs h
  | updateMemberLife id goals dreams structuredThinking => exact updateMemberLife_inv hs h
  | lifeTick req =>
      obtain ⟨⟨proof, t'⟩, hcall, rfl⟩ := Option.map_eq_some_iff.mp h
      exact (lifeTick_spec hcall hs).1
  | work jobs =>
      obtain rfl := Option.some.inj h
      exact ⟨⟨hs.tables.family_lt, hs.tables.families_nodup, hs.tables.member_lt, hs.tables.agent_lt,
        hs.tables.hired, hs.tables.vital⟩, hs.wellFormed⟩

theorem inv_of_reachable (h : (system tiers).Reachable s) : s.Inv :=
  h.invariant (I := Store.Inv) (fun _ => inv_of_founding) fun _ _ _ hs _ hcall => call_inv hs hcall

/-- The ancestry of a city, on its rows. -/
structure Store.Ancestry (s : Store) : Prop where
  one_parent : ∀ f ∈ s.families, (s.livingParents f.id).length = 1
  active_iff : ∀ m ∈ s.members, m.isActive = true ↔ m.lifeStatus = .alive
  alive_iff : ∀ m ∈ s.members, m.lifeStatus = .alive ↔ m.deceasedAt = none
  one_successor : ∀ m ∈ s.members, m.lifeStatus = .deceased →
    (s.members.filter (·.successorOfId = some m.id)).length = 1
  no_successor : ∀ m ∈ s.members, m.lifeStatus = .alive →
    ∀ m' ∈ s.members, m'.successorOfId ≠ some m.id
  child_under : ∀ m ∈ s.members, m.roleInFamily = .child → m.parentMemberId.isSome
  parent_free : ∀ m ∈ s.members, m.roleInFamily = .parent → m.parentMemberId = none
  in_order : s.members.Pairwise fun a b => a.id < b.id
  parent_earlier : ∀ m ∈ s.members, ∀ i, m.parentMemberId = some i →
    ∃ p ∈ s.members, p.id = i ∧ p.familyId = m.familyId ∧ p.id < m.id
  predecessor_earlier : ∀ m ∈ s.members, ∀ i, m.successorOfId = some i →
    ∃ p ∈ s.members, p.id = i ∧ p.familyId = m.familyId ∧ p.id < m.id ∧
      m.generation = p.generation + 1
  parents_acyclic : ∀ i, ¬ Relation.TransGen
    (fun i j => ∃ m ∈ s.members, m.id = i ∧ m.parentMemberId = some j) i i
  successors_acyclic : ∀ i, ¬ Relation.TransGen
    (fun i j => ∃ m ∈ s.members, m.id = i ∧ m.successorOfId = some j) i i

theorem heirs_lineage (i : MemberId) :
    Lineage.heirs s.lineage i = (s.members.filter (·.successorOfId = some i)).length := by
  unfold Lineage.heirs lineage
  rw [List.countP_map, ← List.countP_eq_length_filter]
  rfl

theorem Store.Inv.ancestry (h : s.Inv) : s.Ancestry where
  one_parent := by
    intro f hf
    rw [← heads_lineage h.tables.vital]
    exact h.wellFormed.heads_eq f.id ⟨f, hf, rfl⟩
  active_iff := fun m hm => (h.tables.vital m hm).active_iff
  alive_iff := fun m hm => (h.tables.vital m hm).alive_iff
  one_successor := by
    intro m hm hdead
    have hheirs := h.wellFormed.heirs_eq m.kin (kin_mem_lineage hm)
    rw [heirs_lineage] at hheirs
    simpa [FamilyMemberModel.kin, hdead] using hheirs
  no_successor := by
    intro m hm halive m' hm' hsucc
    have hheirs := h.wellFormed.heirs_eq m.kin (kin_mem_lineage hm)
    rw [heirs_lineage] at hheirs
    have hnone : s.members.filter (·.successorOfId = some m.id) = [] := by
      simpa [FamilyMemberModel.kin, halive] using hheirs
    exact List.filter_eq_nil_iff.mp hnone m' hm' (decide_eq_true hsucc)
  child_under := by
    intro m hm hchild
    have hhead := h.wellFormed.head_iff m.kin (kin_mem_lineage hm)
    rw [Option.isSome_iff_ne_none]
    intro hnone
    simpa [FamilyMemberModel.kin, hchild] using hhead.mpr hnone
  parent_free := by
    intro m hm hparent
    exact (h.wellFormed.head_iff m.kin (kin_mem_lineage hm)).mp (decide_eq_true hparent)
  in_order := by
    have hsorted := h.wellFormed.sorted
    rwa [lineage, List.pairwise_map] at hsorted
  parent_earlier := by
    intro m hm i hi
    obtain ⟨k, hk, hid, hfam, hlt⟩ := h.wellFormed.under_earlier m.kin (kin_mem_lineage hm) i hi
    obtain ⟨p, hp, rfl⟩ := List.mem_map.mp hk
    exact ⟨p, hp, hid, hfam, hlt⟩
  predecessor_earlier := by
    intro m hm i hi
    obtain ⟨k, hk, hid, hrest⟩ := h.wellFormed.heirOf_earlier m.kin (kin_mem_lineage hm) i hi
    obtain ⟨p, hp, rfl⟩ := List.mem_map.mp hk
    exact ⟨p, hp, hid, hrest⟩
  parents_acyclic := by
    intro i hcycle
    refine h.wellFormed.acyclic_under i (Relation.TransGen.mono ?_ _ _ hcycle)
    rintro a b ⟨m, hm, hid, hb⟩
    exact ⟨m.kin, kin_mem_lineage hm, hid, hb⟩
  successors_acyclic := by
    intro i hcycle
    refine h.wellFormed.acyclic_heirOf i (Relation.TransGen.mono ?_ _ _ hcycle)
    rintro a b ⟨m, hm, hid, hb⟩
    exact ⟨m.kin, kin_mem_lineage hm, hid, hb⟩

/-- **Every reachable city has its ancestry in order**, and a completed tick reports as many births as
deaths and leaves each family's number of living members and its efficiency as they were. -/
theorem ancestry_and_ticks (h : (system tiers).Reachable s) :
    s.Ancestry ∧ ∀ req proof t, lifeTick tiers s req = some (proof, t) →
      proof.died = proof.born ∧ ∀ id, (t.livingOf id).length = (s.livingOf id).length ∧
        t.familyEfficiency id (t.livingOf id).length = s.familyEfficiency id (s.livingOf id).length := by
  have hs := inv_of_reachable h
  refine ⟨hs.ancestry, fun req proof t htick => ?_⟩
  obtain ⟨-, hcount, -, hjobs, hliving⟩ := lifeTick_spec htick hs
  refine ⟨hcount, fun id => ⟨hliving id, ?_⟩⟩
  unfold familyEfficiency listForFamily
  rw [hjobs, hliving id]

/-- A city before anything happened. -/
def emptyCity : Store := ⟨[], [], [], [], [], 0⟩

theorem init_emptyCity : (system tiers).init emptyCity :=
  ⟨rfl, rfl, fun _ ha => absurd ha List.not_mem_nil, fun _ hp => absurd hp List.not_mem_nil⟩

/-- A family that lives two ticks, with one child, and two ticks in which the child dies before its
parent. -/
def twoGenerations : List Call :=
  [.createFamily { name := "Moss", policy := { maxAgeTicks := some (some 2) } } 1,
   .spawnChild { familyId := 2, name := "Fern", roleLabel := some "executor" },
   .lifeTick { now := 2 }, .lifeTick { now := 3, order := [6, 3] }]

/-- The city after both ticks: two dead, two heirs. -/
theorem ancestry_twoGenerations :
    ∃ s, (system ⟨"large", "small"⟩).exec emptyCity twoGenerations = some s ∧
      s.members.map (·.successorOfId) = [none, none, some 6, some 3] ∧
      s.Ancestry ∧ ∀ req proof t, lifeTick ⟨"large", "small"⟩ s req = some (proof, t) →
        proof.died = proof.born ∧ ∀ id, (t.livingOf id).length = (s.livingOf id).length ∧
          t.familyEfficiency id (t.livingOf id).length =
            s.familyEfficiency id (s.livingOf id).length := by
  have hex : ((system ⟨"large", "small"⟩).exec emptyCity twoGenerations).any (fun s =>
      decide (s.members.map (·.successorOfId) = [none, none, some 6, some 3])) = true := by
    decide +kernel
  obtain ⟨s, hrun, hheirs⟩ := Runs.System.exists_of_exec hex
  exact ⟨s, hrun, of_decide_eq_true hheirs,
    ancestry_and_ticks (Runs.System.reachable_of_exec init_emptyCity hrun)⟩

end Persola.City
