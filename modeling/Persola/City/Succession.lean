import Persola.City.Ancestry

/-!
# `City.Succession` — when a life tick completes

A death raises in two ways only: `get_parent` meets two rows, or the profile of the heir's persona is
rejected (`passOn_isSome_iff`). Since a family has one living parent, the first happens exactly when that
parent dies and a parent of the family died before it. What a death needs does not depend on the other
deaths of the tick, so the tick completes iff each of them would in the city it started from.
-/

namespace Persola.City

open Agent (AgentId AgentModel)
open Persona (PersonaModel)
open Lineage (Kin)
open Store

variable {tiers : ModelTier} {s r t : Store} {m : FamilyMemberModel} {family : FamilyModel}
  {now : Time} {p q : LifeProof} {req : TickRequest}

theorem isSome_bind_pure {α β : Type*} (o : Option α) (f : α → β) :
    (o.bind fun a => pure (f a)).isSome = o.isSome := by
  cases o <;> rfl

/-! ## The parent lookup -/

theorem scalarOneOrNone_isSome {α : Type*} {l : List α} :
    (scalarOneOrNone l).isSome ↔ l.length ≤ 1 := by
  rcases l with _ | ⟨a, _ | ⟨b, l⟩⟩ <;> simp [scalarOneOrNone]

namespace Store

/-- **`get_parent` raises** where two parents live, or none lives and two have died. -/
theorem getParent_isSome_iff {id : FamilyId} :
    (s.getParent id).isSome ↔ (s.livingParents id).length = 1 ∨
      (s.livingParents id).length = 0 ∧ (s.parentRows id).length ≤ 1 := by
  have hunfold : s.getParent id = (scalarOneOrNone (s.livingParents id)).bind fun parent =>
      parent.elim (scalarOneOrNone (s.parentRows id)) fun parent => some (some parent) := by
    refine congrArg ((scalarOneOrNone (s.livingParents id)).bind ·) (funext fun parent => ?_)
    cases parent <;> rfl
  rw [hunfold]
  rcases h : s.livingParents id with _ | ⟨a, _ | ⟨b, l⟩⟩
  · have hnone : scalarOneOrNone ([] : List FamilyMemberModel) = some none := rfl
    rw [hnone, Option.bind_some, Option.elim_none, scalarOneOrNone_isSome]
    simp
  · simp [scalarOneOrNone]
  · simp [scalarOneOrNone]

/-- Where one parent lives, it is the only parent row iff no parent of the family has died. -/
theorem parentRows_le_one_iff (h : s.Inv) {id : FamilyId} (hone : (s.livingParents id).length = 1) :
    (s.parentRows id).length ≤ 1 ↔
      ∀ p ∈ s.membersOf id, p.roleInFamily = .parent → p.lifeStatus = .alive := by
  have hsplit := (s.parentRows id).length_eq_length_filter_add FamilyMemberModel.living
  -- the living one and the dead ones
  have hlength : (s.parentRows id).length = 1 + ((s.parentRows id).filter (!·.living)).length :=
    hsplit.trans (congrArg (· + _) hone)
  have hle : (s.parentRows id).length ≤ 1 ↔ (s.parentRows id).filter (!·.living) = [] := by
    rw [← List.length_eq_zero_iff]
    omega
  rw [hle, List.filter_eq_nil_iff]
  constructor
  · intro hall p hp hparent
    have hrow : p ∈ s.parentRows id := List.mem_filter.mpr ⟨hp, decide_eq_true hparent⟩
    have hliving : p.living = true := by simpa using hall p hrow
    exact (h.tables.vital p (mem_membersOf.mp hp).1).living_iff.mp hliving
  · intro hall p hrow
    obtain ⟨hp, hparent⟩ := List.mem_filter.mp hrow
    have hliving := (h.tables.vital p (mem_membersOf.mp hp).1).living_iff.mpr
      (hall p hp (of_decide_eq_true hparent))
    simp [hliving]

/-- `get_parent` while a member is being succeeded: it only raises for a parent, and then exactly where a
parent of the family died before. -/
theorem getParent_bury_isSome_iff (h : s.Inv) (hf : family ∈ s.families) (hm : m ∈ s.members)
    (hliving : m.living) (hfam : m.familyId = family.id) :
    ((s.bury m now).getParent family.id).isSome ↔ (m.roleInFamily = .parent →
      ∀ p ∈ s.membersOf family.id, p.roleInFamily = .parent → p.lifeStatus = .alive) := by
  have hone : (s.livingParents family.id).length = 1 := h.ancestry.one_parent family hf
  have halive : m.kin.alive = true := (h.tables.vital m hm).living.symm.trans hliving
  have hkill := h.wellFormed.heads_kill (f := family.id) (kin_mem_lineage hm) halive
  have hbury : (s.bury m now).lineage = Lineage.kill s.lineage m.id := lineage_die m.id
  have htables : (s.bury m now).Tables := die_hires.tables (tables_die h.tables m.id)
  rw [heads_lineage h.tables.vital, hone, show m.kin.id = m.id from rfl, ← hbury,
    heads_lineage htables.vital] at hkill
  have hrows : ((s.bury m now).parentRows family.id).length = (s.parentRows family.id).length := by
    have hmembers : (s.bury m now).membersOf family.id = (s.membersOf family.id).map fun m' =>
        if m'.id = m.id then m'.die now else m' := by
      refine membersOf_map (fun m' => ?_) family.id
      split <;> rfl
    unfold parentRows
    rw [hmembers, List.filter_map, List.length_map]
    congr 2
    funext m'
    simp only [Function.comp_def]
    split <;> rfl
  rw [getParent_isSome_iff, hrows, parentRows_le_one_iff h hone]
  by_cases hparent : m.roleInFamily = .parent
  · have hzero : ((s.bury m now).livingParents family.id).length = 0 := by
      simpa [FamilyMemberModel.kin, hfam, hparent] using hkill
    simp [hzero, hparent]
  · have hstill : ((s.bury m now).livingParents family.id).length = 1 := by
      simpa [FamilyMemberModel.kin, hfam, hparent] using hkill
    simp [hstill, hparent]

end Store

/-! ## The heir -/

theorem heirKnobs_range (s : Store) (m : FamilyMemberModel) (k : Persona.Knob) :
    0 ≤ knobsOr (s.heirKnobs m) k ∧ knobsOr (s.heirKnobs m) k ≤ 1 := by
  unfold Store.heirKnobs
  split <;> exact knobsOr_mutateKnobs_range _ _ k

/-- What a death needs: a parent that dies is the first of its family to die, and the persona of the heir
fits its profile. -/
structure Store.CanPassOn (s : Store) (m : FamilyMemberModel) : Prop where
  first_parent : m.roleInFamily = .parent →
    ∀ p ∈ s.membersOf m.familyId, p.roleInFamily = .parent → p.lifeStatus = .alive
  name_fits : (heirPersonaName (s.agentName m) (m.generation + 1)).length ≤ 200
  description_fits : (heirDescription (s.agentName m) (m.generation + 1)).length ≤ 2000

/-- The persona of the heir as `_succeed_member` creates it is a valid profile iff its texts fit. -/
theorem heirPersona_toProfile_isSome (model : String) :
    (s.createPersona (heirPersonaName (s.agentName m) (m.generation + 1))
      (heirDescription (s.agentName m) (m.generation + 1)) (knobsOr (s.heirKnobs m)) model (7/10)
      2000).1.toProfile.isSome ↔
      (heirPersonaName (s.agentName m) (m.generation + 1)).length ≤ 200 ∧
      (heirDescription (s.agentName m) (m.generation + 1)).length ≤ 2000 := by
  have hdescription : Py.orElse (some (heirDescription (s.agentName m) (m.generation + 1))) "" =
      heirDescription (s.agentName m) (m.generation + 1) := Py.orElse_some_empty _
  rw [PersonaModel.toProfile_isSome]
  constructor
  · intro h
    exact ⟨h.name_length, hdescription ▸ h.description_length⟩
  · rintro ⟨hname, hlength⟩
    exact
      { name_length := hname
        description_length := hdescription.symm ▸ hlength
        knobs_range := fun k _ => heirKnobs_range s m k
        temperature_range := by norm_num [createPersona, PersonaModel.profileFields]
        maxTokens_range := by norm_num [createPersona, PersonaModel.profileFields] }

theorem succeedMember_isSome_iff :
    (s.succeedMember tiers m family).isSome ↔ (s.getParent family.id).isSome ∧
      (heirPersonaName (s.agentName m) (m.generation + 1)).length ≤ 200 ∧
      (heirDescription (s.agentName m) (m.generation + 1)).length ≤ 2000 := by
  unfold Store.succeedMember
  cases hparent : s.getParent family.id with
  | none => simp
  | some parent =>
      rw [← heirPersona_toProfile_isSome (tiers.forRole
        (if m.roleInFamily = .parent then "parent" else "child") (Py.orElse m.roleLabel "builder"))]
      simp only [Option.bind_eq_bind, Option.bind_some, Option.isSome_some, true_and]
      rw [isSome_bind_pure]

/-- **A death completes** iff `CanPassOn` holds. -/
theorem passOn_isSome_iff (hs : s.Inv) (hf : family ∈ s.families) (hm : m ∈ s.members)
    (hliving : m.living) (hfam : m.familyId = family.id) :
    (passOn tiers family now (p, s) m).isSome ↔ s.CanPassOn m := by
  have hname : (s.bury m now).agentName m = s.agentName m :=
    agentName_eq die_hires.agents (hs.tables.hired m hm)
  have hsome : (passOn tiers family now (p, s) m).isSome =
      ((s.bury m now).succeedMember tiers m family).isSome := isSome_bind_pure _ _
  rw [hsome, succeedMember_isSome_iff, hname, getParent_bury_isSome_iff hs hf hm hliving hfam, ← hfam]
  exact ⟨fun ⟨h₁, h₂, h₃⟩ => ⟨h₁, h₂, h₃⟩, fun h => ⟨h.first_parent, h.name_fits, h.description_fits⟩⟩

/-! ## The deaths of one family -/

/-- The death of a child leaves the parent rows alone. -/
theorem mem_passOn_parent (h : passOn tiers family now (p, s) m = some (q, t)) (hs : s.Inv)
    (hm : m ∈ s.members) (hfam : m.familyId = family.id) (hchild : m.roleInFamily ≠ .parent)
    {m' : FamilyMemberModel} (hparent : m'.roleInFamily = .parent) : m' ∈ t.members ↔ m' ∈ s.members := by
  constructor
  · intro hm'
    obtain ⟨r, parent, heir, -, hhires, -, -, hkin, rfl, -, -⟩ := passOn_spec h hfam
    have hhead : (decide (heir.roleInFamily = .parent)) = decide (m.roleInFamily = .parent) :=
      congrArg Kin.head hkin
    rcases List.mem_append.mp hm' with hold | hnew
    · rw [hhires.members] at hold
      obtain ⟨m₀, hm₀, rfl⟩ := List.mem_map.mp hold
      by_cases hid : m₀.id = m.id
      · obtain rfl := mem_members_unique hs hm₀ hm hid
        rw [if_pos hid] at hparent
        exact absurd hparent hchild
      · rwa [if_neg hid]
    · rw [List.mem_singleton.mp hnew] at hparent
      rw [decide_eq_true (show heir.roleInFamily = .parent from hparent)] at hhead
      exact absurd (of_decide_eq_true hhead.symm) hchild
  · intro hm'
    refine passOn_kept h hfam hm' fun hid => hchild ?_
    rw [← mem_members_unique hs hm' hm hid]
    exact hparent

/-- What a later death of the family needs is not changed by an earlier one. -/
theorem passOn_canPassOn (h : passOn tiers family now (p, s) m = some (q, t)) (hs : s.Inv)
    (hf : family ∈ s.families) (hm : m ∈ s.members) (hliving : m.living) (hfam : m.familyId = family.id)
    {m' : FamilyMemberModel} (hm' : m' ∈ s.members) (hliving' : m'.living)
    (hfam' : m'.familyId = family.id) (hid : m'.id ≠ m.id) : t.CanPassOn m' ↔ s.CanPassOn m' := by
  have hname : t.agentName m' = s.agentName m' :=
    agentName_eq (passOn_passes h hs hm hliving hfam).agents (hs.tables.hired m' hm')
  have hparents : (m'.roleInFamily = .parent →
        ∀ p ∈ t.membersOf m'.familyId, p.roleInFamily = .parent → p.lifeStatus = .alive) ↔
      (m'.roleInFamily = .parent →
        ∀ p ∈ s.membersOf m'.familyId, p.roleInFamily = .parent → p.lifeStatus = .alive) := by
    refine imp_congr_right fun hparent' => ?_
    -- a family has one living parent, so of two that die only one is a parent
    have hchild : m.roleInFamily ≠ .parent := by
      intro hparent
      obtain ⟨only, honly⟩ := List.length_eq_one_iff.mp (hs.ancestry.one_parent family hf)
      have hmem : ∀ x ∈ s.members, x.living → x.familyId = family.id → x.roleInFamily = .parent →
          x = only := by
        intro x hx hxliving hxfam hxparent
        have hrow : x ∈ s.livingParents family.id := List.mem_filter.mpr
          ⟨List.mem_filter.mpr ⟨mem_membersOf.mpr ⟨hx, hxfam⟩, decide_eq_true hxparent⟩, hxliving⟩
        rw [honly] at hrow
        exact List.mem_singleton.mp hrow
      exact hid (by rw [hmem m' hm' hliving' hfam' hparent', hmem m hm hliving hfam hparent])
    simp only [mem_membersOf]
    exact ⟨fun hall p hp hparent =>
        hall p ⟨(mem_passOn_parent h hs hm hfam hchild hparent).mpr hp.1, hp.2⟩ hparent,
      fun hall p hp hparent =>
        hall p ⟨(mem_passOn_parent h hs hm hfam hchild hparent).mp hp.1, hp.2⟩ hparent⟩
  constructor
  · intro hcan
    exact ⟨hparents.mp hcan.first_parent, hname ▸ hcan.name_fits, hname ▸ hcan.description_fits⟩
  · intro hcan
    exact ⟨hparents.mpr hcan.first_parent, hname.symm ▸ hcan.name_fits, hname.symm ▸ hcan.description_fits⟩

/-- Ageing does not change what a death needs. -/
theorem ageFamily_canPassOn {forceAge : ℤ} :
    (s.ageFamily family forceAge).CanPassOn (m.age family.policy forceAge) ↔ s.CanPassOn m := by
  have hparents : (∀ p ∈ (s.ageFamily family forceAge).membersOf m.familyId,
        p.roleInFamily = .parent → p.lifeStatus = .alive) ↔
      ∀ p ∈ s.membersOf m.familyId, p.roleInFamily = .parent → p.lifeStatus = .alive := by
    rw [membersOf_ageFamily, List.forall_mem_map]
    refine forall₂_congr fun p _ => ?_
    split <;> rfl
  constructor
  · intro h
    exact ⟨fun hparent => hparents.mp (h.first_parent hparent), h.name_fits, h.description_fits⟩
  · intro h
    exact ⟨fun hparent => hparents.mpr (h.first_parent hparent), h.name_fits, h.description_fits⟩

/-- **One family of a tick completes** iff each of its deaths can. -/
theorem tickFamily_isSome_iff (hs : s.Inv) (hf : family ∈ s.families) :
    (tickFamily tiers req (p, s) family).isSome ↔
      ∀ m ∈ s.membersOf family.id, m.comesDue family.policy req.forceAge → s.CanPassOn m := by
  let I (rest : List FamilyMemberModel) (u : LifeProof × Store) : Prop :=
    u.2.Inv ∧ family ∈ u.2.families ∧ Doomed family rest u.2 ∧
      ∀ m ∈ rest, u.2.CanPassOn m ↔ (s.ageFamily family req.forceAge).CanPassOn m
  have hok : ∀ (m : FamilyMemberModel) (rest : List FamilyMemberModel) (u : LifeProof × Store),
      I (m :: rest) u → ((passOn tiers family req.now u m).isSome ↔
        (s.ageFamily family req.forceAge).CanPassOn m) := by
    rintro m rest ⟨p, u⟩ ⟨hinv, hfam, hdoomed, hcan⟩
    obtain ⟨hm, hliving, hmfam⟩ := hdoomed.mem m (List.mem_cons_self ..)
    rw [passOn_isSome_iff hinv hfam hm hliving hmfam]
    exact hcan m (List.mem_cons_self ..)
  have hstep : ∀ (m : FamilyMemberModel) (rest : List FamilyMemberModel) (u v : LifeProof × Store),
      I (m :: rest) u → passOn tiers family req.now u m = some v → I rest v := by
    rintro m rest ⟨p, u⟩ ⟨q, v⟩ ⟨hinv, hfam, hdoomed, hcan⟩ hpass
    obtain ⟨hm, hliving, hmfam⟩ := hdoomed.mem m (List.mem_cons_self ..)
    refine ⟨passOn_inv hpass hinv hm hliving hmfam, ?_, hdoomed.passOn hpass, fun m' hm' => ?_⟩
    · exact (passOn_passes hpass hinv hm hliving hmfam).families.symm ▸ hfam
    · obtain ⟨hmem', hliving', hfam'⟩ := hdoomed.mem m' (List.mem_cons_of_mem _ hm')
      have hid : m'.id ≠ m.id := fun heq =>
        (List.nodup_cons.mp hdoomed.nodup).1 (List.mem_map.mpr ⟨m', hm', heq⟩)
      rw [← hcan m' (List.mem_cons_of_mem _ hm')]
      exact passOn_canPassOn hpass hinv hfam hm hliving hmfam hmem' hliving' hfam' hid
  have hfold := Runs.foldlM_isSome_iff hok hstep
    (⟨ageFamily_inv hs, hf, doomed_deaths hs, fun _ _ => Iff.rfl⟩ :
      I (s.deaths family req)
        ({ p with aged := p.aged + (s.livingOf family.id).length }, s.ageFamily family req.forceAge))
  refine hfold.trans ?_
  unfold deaths rowsOf
  simp only [List.forall_mem_map, List.mem_filter, Select.mem_orderBy, and_imp, ageFamily_canPassOn]

/-! ## The tick -/

theorem tickFamilies_mem {f : FamilyModel} (hf : f ∈ s.tickFamilies req) : f ∈ s.families := by
  have hrecent : f ∈ s.listRecent := by
    unfold tickFamilies at hf
    split at hf
    · exact hf
    · exact List.mem_of_mem_take hf
  exact List.mem_of_mem_filter (Select.mem_orderByDesc.mp (List.mem_of_mem_take hrecent))

/-- What a death needs is read off the family and the name of the member's agent. -/
theorem canPassOn_congr (hmembers : t.membersOf m.familyId = s.membersOf m.familyId)
    (hname : t.agentName m = s.agentName m) : t.CanPassOn m ↔ s.CanPassOn m := by
  constructor
  · rintro ⟨h₁, h₂, h₃⟩
    rw [hmembers] at h₁
    rw [hname] at h₂ h₃
    exact ⟨h₁, h₂, h₃⟩
  · rintro ⟨h₁, h₂, h₃⟩
    rw [← hmembers] at h₁
    rw [← hname] at h₂ h₃
    exact ⟨h₁, h₂, h₃⟩

/-- A tick completes iff each member it kills can pass on. -/
theorem lifeTick_isSome_iff (hs : s.Inv) (req : TickRequest) :
    (lifeTick tiers s req).isSome ↔
      ∀ f ∈ s.tickFamilies req, ∀ m ∈ s.membersOf f.id,
        m.comesDue f.policy req.forceAge → s.CanPassOn m := by
  let I (rest : List FamilyModel) (u : LifeProof × Store) : Prop :=
    u.2.Inv ∧ u.2.families = s.families ∧ (rest.map (·.id)).Nodup ∧
      (∀ f ∈ rest, f ∈ s.families ∧ u.2.membersOf f.id = s.membersOf f.id) ∧
      ∀ i a, s.getAgent i = some a → ∃ b, u.2.getAgent i = some b ∧ b.name = a.name
  have hok : ∀ (f : FamilyModel) (rest : List FamilyModel) (u : LifeProof × Store), I (f :: rest) u →
      ((tickFamily tiers req u f).isSome ↔
        ∀ m ∈ s.membersOf f.id, m.comesDue f.policy req.forceAge → s.CanPassOn m) := by
    rintro f rest ⟨p, u⟩ ⟨hinv, hfamilies, -, hrest, hagents⟩
    obtain ⟨hf, hmembers⟩ := hrest f (List.mem_cons_self ..)
    dsimp only at hfamilies hmembers
    rw [tickFamily_isSome_iff hinv (hfamilies.symm ▸ hf), hmembers]
    refine forall₂_congr fun m hm => imp_congr_right fun _ => ?_
    obtain ⟨hmem, hmfam⟩ := mem_membersOf.mp hm
    exact canPassOn_congr (hmfam.symm ▸ hmembers) (agentName_eq hagents (hs.tables.hired m hmem))
  have hstep : ∀ (f : FamilyModel) (rest : List FamilyModel) (u v : LifeProof × Store),
      I (f :: rest) u → tickFamily tiers req u f = some v → I rest v := by
    rintro f rest ⟨p, u⟩ ⟨q, v⟩ ⟨hinv, hfamilies, hnodup, hrest, hagents⟩ htick
    obtain ⟨hinv', hpasses, -⟩ := tickFamily_spec htick hinv
    obtain ⟨hnot, hnodup'⟩ := List.nodup_cons.mp hnodup
    refine ⟨hinv', hpasses.families.trans hfamilies, hnodup', fun g hg => ?_, ?_⟩
    · obtain ⟨hgmem, hmembers⟩ := hrest g (List.mem_cons_of_mem _ hg)
      have hne : g.id ≠ f.id := fun heq => hnot (List.mem_map.mpr ⟨g, hg, heq⟩)
      exact ⟨hgmem, (hpasses.elsewhere g.id hne).trans hmembers⟩
    · intro i a ha
      obtain ⟨b, hb, hname⟩ := hagents i a ha
      obtain ⟨c, hc, hname'⟩ := hpasses.agents i b hb
      exact ⟨c, hc, hname'.trans hname⟩
  exact Runs.foldlM_isSome_iff hok hstep
    (⟨hs, rfl, tickFamilies_nodup hs.tables, fun f hf => ⟨tickFamilies_mem hf, rfl⟩,
      fun _ a ha => ⟨a, ha, rfl⟩⟩ : I (s.tickFamilies req) ({}, s))

/-- **When a tick completes**: in every reachable city, iff each member it kills can pass on. -/
theorem lifeTick_completes_iff (h : (system tiers).Reachable s) (req : TickRequest) :
    (lifeTick tiers s req).isSome ↔
      ∀ f ∈ s.tickFamilies req, ∀ m ∈ s.membersOf f.id,
        m.comesDue f.policy req.forceAge → s.CanPassOn m :=
  lifeTick_isSome_iff (inv_of_reachable h) req

/-- The city of two generations completes one more tick. -/
theorem lifeTick_completes_twoGenerations :
    ∃ s, (system ⟨"large", "small"⟩).exec emptyCity twoGenerations = some s ∧
      (lifeTick ⟨"large", "small"⟩ s {}).isSome ∧
      ∀ f ∈ s.tickFamilies {}, ∀ m ∈ s.membersOf f.id, m.comesDue f.policy 1 → s.CanPassOn m := by
  have hex : ((system ⟨"large", "small"⟩).exec emptyCity twoGenerations).any (fun s =>
      (lifeTick ⟨"large", "small"⟩ s {}).isSome) = true := by
    decide +kernel
  obtain ⟨s, hrun, hsome⟩ := Runs.System.exists_of_exec hex
  exact ⟨s, hrun, hsome,
    (lifeTick_completes_iff (Runs.System.reachable_of_exec init_emptyCity hrun) {}).mp hsome⟩

/-- A policy given to a new family lets its members live for at least one tick. -/
def positiveLives (_ : Store) : Call → Prop
  | .createFamily req _ => ∀ v, req.policy.maxAgeTicks = some v → ∃ n, v = some n ∧ 1 ≤ n
  | _ => True

/-- A family whose members live one tick, and a first tick. -/
def oneDeath : List Call :=
  [.createFamily { name := "Moss", policy := { maxAgeTicks := some (some 1) } } 1, .lifeTick { now := 2 }]

/-- **The second parent that dies** brings the tick down: `get_parent` meets the first one and the second. -/
theorem lifeTick_raises : ¬ ∀ (tiers : ModelTier) (s : Store) (req : TickRequest),
    (system tiers).Reach positiveLives s → 1 ≤ req.forceAge → (lifeTick tiers s req).isSome := by
  intro hclaim
  have hex : ((system ⟨"large", "small"⟩).exec emptyCity oneDeath).any (fun s =>
      (lifeTick ⟨"large", "small"⟩ s { now := 3 }).isNone) = true := by
    decide +kernel
  obtain ⟨s, hrun, hnone⟩ := Runs.System.exists_of_exec hex
  have hmeets : (system ⟨"large", "small"⟩).Meets positiveLives emptyCity oneDeath := by
    refine ⟨?_, fun _ _ => ⟨trivial, fun _ _ => trivial⟩⟩
    rintro v ⟨⟩
    exact ⟨1, rfl, le_rfl⟩
  have hsome := hclaim ⟨"large", "small"⟩ s { now := 3 }
    ⟨emptyCity, init_emptyCity, Runs.System.run_of_meets hrun hmeets⟩ le_rfl
  rw [Option.isNone_iff_eq_none.mp hnone] at hsome
  exact absurd hsome (by decide)

end Persola.City
