import Persola.City.Succession

/-!
# `City.Ageing` — for whom a life tick lets time pass

`life_tick` without `max_families` takes its families from `list_families`, which is also what the UI lists:
a page of fifty, the most recently updated first. In a family it comes to, every living member ages and no
other (`tickFamily_older`), so a tick that completes ages everyone iff no family is past the page
(`agesAll_iff`).
-/

namespace Persola.City

open Store

variable {tiers : ModelTier} {s r t : Store} {m : FamilyMemberModel} {family : FamilyModel}
  {now : Time} {p q : LifeProof} {req : TickRequest}

namespace Store

/-- The active families. -/
def activeFamilies (s : Store) : List FamilyModel := s.families.filter (·.isActive)

/-- The living members of the active families. -/
def inhabitants (s : Store) : List FamilyMemberModel :=
  s.members.filter fun m => m.living && decide (m.familyId ∈ s.activeFamilies.map (·.id))

/-- The age on a member's row. -/
def ageOf (s : Store) (id : MemberId) : Option ℤ := (s.getMember id).map (·.ageTicks)

/-- From `s` to `t` everyone living in an active family aged by `a`, nobody who was dead did, and the tick
counted whom it aged. -/
structure AgesAll (s t : Store) (proof : LifeProof) (a : ℤ) : Prop where
  living : ∀ m ∈ s.inhabitants, t.ageOf m.id = some (m.ageTicks + a)
  deceased : ∀ m ∈ s.members, m.lifeStatus = .deceased → t.ageOf m.id = some m.ageTicks
  aged : proof.aged = s.inhabitants.length

/-- Every member of `s` still has its row in `t`, older by what `d` says. -/
def Older (s t : Store) (d : FamilyMemberModel → ℤ) : Prop :=
  ∀ m ∈ s.members, ∃ m' ∈ t.members,
    m'.id = m.id ∧ m'.familyId = m.familyId ∧ m'.ageTicks = m.ageTicks + d m

theorem Older.ageOf {d : FamilyMemberModel → ℤ} (h : s.Older t d) (ht : t.Inv) (hm : m ∈ s.members) :
    t.ageOf m.id = some (m.ageTicks + d m) := by
  obtain ⟨m', hm', hid, -, hage⟩ := h m hm
  have hnodup : (t.members.map (·.id)).Nodup := by
    simpa [lineage, Function.comp_def, FamilyMemberModel.kin] using ht.wellFormed.nodup
  have hget : t.getMember m'.id = some m' := Table.find?_key hnodup hm'
  rw [hid] at hget
  rw [Store.ageOf, hget, Option.map_some, hage]

end Store

/-! ## One family -/

theorem passOn_aged (h : passOn tiers family now (p, s) m = some (q, t)) : q.aged = p.aged := by
  obtain ⟨⟨heir, u⟩, -, h⟩ := Option.bind_eq_some_iff.mp h
  obtain ⟨rfl, -⟩ := Prod.mk.inj (Option.some.inj h)
  rfl

/-- A death leaves every age as it is, that of the dead included. -/
theorem passOn_older (h : passOn tiers family now (p, s) m = some (q, t)) (hfam : m.familyId = family.id) :
    s.Older t fun _ => 0 := by
  intro m' hm'
  obtain ⟨r, parent, heir, -, hhires, -, -, -, rfl, -, -⟩ := passOn_spec h hfam
  have hrow : (if m'.id = m.id then m'.die now else m') ∈ r.members := by
    rw [hhires.members]
    exact List.mem_map_of_mem hm'
  refine ⟨_, List.mem_append_left _ hrow, ?_⟩
  by_cases hid : m'.id = m.id
  · rw [if_pos hid]
    exact ⟨rfl, rfl, (add_zero _).symm⟩
  · rw [if_neg hid]
    exact ⟨rfl, rfl, (add_zero _).symm⟩

/-- **In one family of a tick** exactly the living members age, and they are counted. -/
theorem tickFamily_older (h : tickFamily tiers req (p, s) family = some (q, t)) (hs : s.Inv) :
    q.aged = p.aged + (s.livingOf family.id).length ∧
      s.Older t fun m => if m.familyId = family.id ∧ m.living then max 1 req.forceAge else 0 := by
  let d (m : FamilyMemberModel) : ℤ := if m.familyId = family.id ∧ m.living then max 1 req.forceAge else 0
  have hstart : s.Older (s.ageFamily family req.forceAge) d := by
    intro m hm
    refine ⟨_, List.mem_map_of_mem hm, ?_⟩
    by_cases hages : m.familyId = family.id ∧ m.living
    · rw [if_pos hages, show d m = max 1 req.forceAge from if_pos hages]
      exact ⟨rfl, rfl, rfl⟩
    · rw [if_neg hages, show d m = 0 from if_neg hages]
      exact ⟨rfl, rfl, (add_zero _).symm⟩
  have hend := tickFamily_rule
    (P := fun _ u => u.1.aged = p.aged + (s.livingOf family.id).length ∧ s.Older u.2 d) ?_ hs h ⟨rfl, hstart⟩
  · exact hend.2
  · rintro m rest p q u v - - - hfam ⟨haged, holder⟩ hpass
    refine ⟨(passOn_aged hpass).trans haged, ?_⟩
    intro m' hm'
    obtain ⟨m₁, hm₁, hid₁, hfam₁, hage₁⟩ := holder m' hm'
    obtain ⟨m₂, hm₂, hid₂, hfam₂, hage₂⟩ := passOn_older hpass hfam m₁ hm₁
    refine ⟨m₂, hm₂, hid₂.trans hid₁, hfam₂.trans hfam₁, ?_⟩
    rw [hage₂, hage₁, add_zero]

/-! ## The tick -/

/-- The tick has come to the member's family: it is one of `families`, and not of those still to come. -/
def FamilyMemberModel.served (families rest : List FamilyModel) (m : FamilyMemberModel) : Bool :=
  m.living && decide (m.familyId ∈ families.map (·.id)) && decide (m.familyId ∉ rest.map (·.id))

theorem FamilyMemberModel.served_cons {families rest : List FamilyModel} {f : FamilyModel}
    (hf : f ∈ families) (hnot : f.id ∉ rest.map (·.id)) :
    m.served families rest = if m.familyId = f.id then m.living else m.served families (f :: rest) := by
  unfold FamilyMemberModel.served
  by_cases hid : m.familyId = f.id
  · have hmem : f.id ∈ families.map (·.id) := List.mem_map_of_mem hf
    simp [hid, hnot, hmem]
  · simp [hid]

/-- Whom the tick has come to, one family later. -/
theorem countP_served {families rest : List FamilyModel} {f : FamilyModel} (hf : f ∈ families)
    (hnot : f.id ∉ rest.map (·.id)) :
    s.members.countP (·.served families rest) =
      s.members.countP (·.served families (f :: rest)) + (s.livingOf f.id).length := by
  have hlater : (s.membersOf f.id).countP (·.served families rest) = (s.livingOf f.id).length := by
    rw [livingOf, ← List.countP_eq_length_filter]
    refine List.countP_congr fun m hm => ?_
    rw [FamilyMemberModel.served_cons hf hnot, if_pos (mem_membersOf.mp hm).2]
  have hbefore : (s.membersOf f.id).countP (·.served families (f :: rest)) = 0 := by
    rw [List.countP_eq_zero]
    intro m hm
    simp [FamilyMemberModel.served, (mem_membersOf.mp hm).2]
  have hothers : (s.members.filter fun m => !decide (m.familyId = f.id)).countP (·.served families rest) =
      (s.members.filter fun m => !decide (m.familyId = f.id)).countP (·.served families (f :: rest)) := by
    refine List.countP_congr fun m hm => ?_
    have hne : m.familyId ≠ f.id := by simpa using (List.mem_filter.mp hm).2
    rw [FamilyMemberModel.served_cons hf hnot, if_neg hne]
  rw [List.countP_eq_countP_filter_add s.members _ (fun m => decide (m.familyId = f.id)),
    List.countP_eq_countP_filter_add s.members (·.served families (f :: rest))
      (fun m => decide (m.familyId = f.id))]
  rw [show s.members.filter (fun m => decide (m.familyId = f.id)) = s.membersOf f.id from rfl, hlater,
    hbefore, hothers]
  omega

/-- **A tick** ages the living members of its families and nobody else, and counts them. -/
theorem lifeTick_older (h : lifeTick tiers s req = some (q, t)) (hs : s.Inv) :
    q.aged = s.members.countP (·.served (s.tickFamilies req) []) ∧
      s.Older t fun m => if m.served (s.tickFamilies req) [] then max 1 req.forceAge else 0 := by
  let families := s.tickFamilies req
  have hnobody : ∀ m : FamilyMemberModel, m.served families families = false := by
    intro m
    simp [FamilyMemberModel.served]
  have hend := lifeTick_rule
    (P := fun rest u => u.1.aged = s.members.countP (·.served families rest) ∧
      s.Older u.2 fun m => if m.served families rest then max 1 req.forceAge else 0) ?_ hs h ⟨?_, ?_⟩
  · exact hend.2
  · rintro f rest p q u v hinv hsuffix hhere ⟨haged, holder⟩ htick
    have hf : f ∈ families := hsuffix.subset (List.mem_cons_self ..)
    have hnodup : ((f :: rest).map (·.id)).Nodup :=
      (tickFamilies_nodup hs.tables).sublist (hsuffix.sublist.map _)
    obtain ⟨hnot, -⟩ := List.nodup_cons.mp hnodup
    obtain ⟨-, hpasses, -⟩ := tickFamily_spec htick hinv
    obtain ⟨haged', holder'⟩ := tickFamily_older htick hinv
    constructor
    · rw [countP_served hf hnot, ← haged, haged', livingOf, livingOf, hhere]
    · intro m hm
      by_cases hid : m.familyId = f.id
      · -- the tick has not come to the family before, so its rows are still those of `s`
        have hmu : m ∈ u.members := by
          have hrow : m ∈ u.membersOf f.id := hhere.symm ▸ mem_membersOf.mpr ⟨hm, hid⟩
          exact (mem_membersOf.mp hrow).1
        obtain ⟨m', hm', hrest⟩ := holder' m hmu
        refine ⟨m', hm', ?_⟩
        simpa [FamilyMemberModel.served_cons hf hnot, hid] using hrest
      · obtain ⟨m', hm', hid', hfam', hage'⟩ := holder m hm
        have hrow : m' ∈ v.membersOf m.familyId := by
          rw [hpasses.elsewhere _ hid]
          exact mem_membersOf.mpr ⟨hm', hfam'⟩
        refine ⟨m', (mem_membersOf.mp hrow).1, hid', hfam', ?_⟩
        simpa [FamilyMemberModel.served_cons hf hnot, hid] using hage'
  · simp [families, hnobody]
  · intro m hm
    exact ⟨m, hm, rfl, rfl, by simp [families, hnobody]⟩

/-! ## The page -/

/-- Without `max_families` a tick goes over the page that `list_families` returns. -/
theorem tickFamilies_eq (hall : req.maxFamilies = none) :
    s.tickFamilies req = (Select.orderByDesc (·.updatedAt) s.activeFamilies).take 50 := by
  unfold tickFamilies
  rw [hall]
  rfl

theorem mem_tickFamilies_iff (hall : req.maxFamilies = none) (hpage : s.activeFamilies.length ≤ 50)
    {f : FamilyModel} : f ∈ s.tickFamilies req ↔ f ∈ s.activeFamilies := by
  rw [tickFamilies_eq hall, List.take_of_length_le, Select.mem_orderByDesc]
  rwa [(Select.orderByDesc_perm _ _).length_eq]

/-- A family past the page is left out of the tick. -/
theorem exists_past_page (hs : s.Tables) (hall : req.maxFamilies = none)
    (hlong : 50 < s.activeFamilies.length) :
    ∃ f ∈ s.activeFamilies, f.id ∉ (s.tickFamilies req).map (·.id) := by
  let listed := Select.orderByDesc (·.updatedAt) s.activeFamilies
  have hperm : listed.Perm s.activeFamilies := Select.orderByDesc_perm _ _
  have hlength : 50 < listed.length := hperm.length_eq.symm ▸ hlong
  have hnodup : (listed.map (·.id)).Nodup :=
    (hperm.map _).nodup_iff.mpr (hs.families_nodup.sublist (List.filter_sublist.map _))
  refine ⟨listed[50], hperm.mem_iff.mp (List.getElem_mem hlength), fun hmem => ?_⟩
  rw [tickFamilies_eq hall, List.map_take, List.mem_take_iff_getElem] at hmem
  obtain ⟨i, hi, heq⟩ := hmem
  have hlast : 50 < (listed.map (·.id)).length := by rwa [List.length_map]
  have hindex : (listed.map (·.id))[50] = listed[50].id := List.getElem_map ..
  -- ids do not recur, so an id within the page is not the one past it
  have hsame : i = 50 := hnodup.getElem_inj_iff.mp (heq.trans hindex.symm)
  omega

/-- **A tick that completes** ages everyone iff no active family is past the page. -/
theorem agesAll_iff (h : lifeTick tiers s req = some (q, t)) (hs : s.Inv) (hall : req.maxFamilies = none)
    (hage : 1 ≤ req.forceAge) : s.AgesAll t q req.forceAge ↔ s.activeFamilies.length ≤ 50 := by
  obtain ⟨haged, holder⟩ := lifeTick_older h hs
  have ht : t.Inv := (lifeTick_spec h hs).1
  have hmax : max 1 req.forceAge = req.forceAge := max_eq_right hage
  rw [hmax] at holder
  constructor
  · intro hages
    by_contra hlong
    obtain ⟨f, hf, hpast⟩ := exists_past_page hs.tables hall (not_le.mp hlong)
    have hone := hs.ancestry.one_parent f (List.mem_filter.mp hf).1
    obtain ⟨m, hm⟩ := List.length_eq_one_iff.mp hone
    have hparent : m ∈ s.livingParents f.id := by
      rw [hm]
      exact List.mem_singleton_self m
    obtain ⟨hrow, hliving⟩ := List.mem_filter.mp hparent
    obtain ⟨hmem, hfam⟩ := mem_membersOf.mp (List.mem_filter.mp hrow).1
    have hactive : m.familyId ∈ s.activeFamilies.map (·.id) := hfam.symm ▸ List.mem_map_of_mem hf
    have hold := hages.living m (List.mem_filter.mpr ⟨hmem, by simp [hliving, hactive]⟩)
    have hnever : m.served (s.tickFamilies req) [] = false := by
      rw [← hfam] at hpast
      simp only [FamilyMemberModel.served, hpast, decide_false, Bool.and_false, Bool.false_and]
    rw [holder.ageOf ht hmem, hnever] at hold
    have hzero : m.ageTicks + 0 = m.ageTicks + req.forceAge := Option.some.inj hold
    omega
  · intro hpage
    have hserved : ∀ m : FamilyMemberModel, m.served (s.tickFamilies req) [] =
        (m.living && decide (m.familyId ∈ s.activeFamilies.map (·.id))) := by
      intro m
      simp [FamilyMemberModel.served, mem_tickFamilies_iff hall hpage]
    refine ⟨fun m hm => ?_, fun m hm hdead => ?_, ?_⟩
    · obtain ⟨hmem, hin⟩ := List.mem_filter.mp hm
      rw [holder.ageOf ht hmem, hserved, if_pos hin]
    · have hnot : m.living = false := by
        simp [FamilyMemberModel.living, hdead]
      rw [holder.ageOf ht hm, hserved, hnot, Bool.false_and, if_neg Bool.false_ne_true, add_zero]
    · rw [haged, List.countP_eq_length_filter]
      simp only [hserved]
      rfl

/-- **Time passes for everyone** in a tick without `max_families` iff the active families fit the page and
whoever dies can pass on. -/
theorem lifeTick_ages_iff (h : (system tiers).Reachable s) (hall : req.maxFamilies = none)
    (hage : 1 ≤ req.forceAge) :
    (∃ proof t, lifeTick tiers s req = some (proof, t) ∧ s.AgesAll t proof req.forceAge) ↔
      s.activeFamilies.length ≤ 50 ∧ ∀ f ∈ s.activeFamilies, ∀ m ∈ s.membersOf f.id,
        m.comesDue f.policy req.forceAge → s.CanPassOn m := by
  have hs := inv_of_reachable h
  have hcompletes : (lifeTick tiers s req).isSome ↔ _ := lifeTick_isSome_iff hs req
  constructor
  · rintro ⟨proof, t, htick, hages⟩
    have hpage := (agesAll_iff htick hs hall hage).mp hages
    rw [htick] at hcompletes
    exact ⟨hpage, fun f hf => hcompletes.mp rfl f ((mem_tickFamilies_iff hall hpage).mpr hf)⟩
  · rintro ⟨hpage, hcan⟩
    have hsome := hcompletes.mpr fun f hf => hcan f ((mem_tickFamilies_iff hall hpage).mp hf)
    obtain ⟨⟨proof, t⟩, htick⟩ := Option.isSome_iff_exists.mp hsome
    exact ⟨proof, t, htick, (agesAll_iff htick hs hall hage).mpr hpage⟩

/-- In the city of two generations a year passes for everyone. -/
theorem lifeTick_ages_twoGenerations :
    ∃ s, (system ⟨"large", "small"⟩).exec emptyCity twoGenerations = some s ∧
      ∃ proof t, lifeTick ⟨"large", "small"⟩ s {} = some (proof, t) ∧ s.AgesAll t proof 1 := by
  have hex : ((system ⟨"large", "small"⟩).exec emptyCity twoGenerations).any (fun s =>
      decide (s.activeFamilies.length ≤ 50) && (lifeTick ⟨"large", "small"⟩ s {}).isSome) = true := by
    decide +kernel
  obtain ⟨s, hrun, hholds⟩ := Runs.System.exists_of_exec hex
  obtain ⟨hpage, hsome⟩ := Bool.and_eq_true_iff.mp hholds
  have hreach := Runs.System.reachable_of_exec init_emptyCity hrun
  have hpage := of_decide_eq_true hpage
  have hdue := (lifeTick_isSome_iff (inv_of_reachable hreach) {}).mp hsome
  exact ⟨s, hrun, (lifeTick_ages_iff hreach rfl le_rfl).mpr
    ⟨hpage, fun f hf => hdue f ((mem_tickFamilies_iff rfl hpage).mpr hf)⟩⟩

/-- Fifty-one families, founded by one agent. -/
def fiftyOne : List Call :=
  .createFamily { name := "Moss" } 0 ::
    (List.range 50).map fun i => .createFamily { name := "Fern", parentAgentId := some 1 } (i + 1)

/-- **The family past the page is left out of time**: a tick over fifty-one families completes, and one of
them has not aged. -/
theorem lifeTick_leaves_out : ¬ ∀ (tiers : ModelTier) (s : Store) (req : TickRequest),
    (system tiers).Reachable s → req.maxFamilies = none → 1 ≤ req.forceAge →
      ∀ proof t, lifeTick tiers s req = some (proof, t) → s.AgesAll t proof req.forceAge := by
  intro hclaim
  have hex : ((system ⟨"large", "small"⟩).exec emptyCity fiftyOne).any (fun s =>
      decide (50 < s.activeFamilies.length) &&
        s.families.all fun f => s.members.all fun m => !m.comesDue f.policy 1) = true := by
    decide +kernel
  obtain ⟨s, hrun, hholds⟩ := Runs.System.exists_of_exec hex
  obtain ⟨hlong, hyoung⟩ := Bool.and_eq_true_iff.mp hholds
  have hreach := Runs.System.reachable_of_exec init_emptyCity hrun
  -- nobody comes due, so the tick completes
  have hsome : (lifeTick ⟨"large", "small"⟩ s {}).isSome := by
    refine (lifeTick_isSome_iff (inv_of_reachable hreach) {}).mpr fun f hf m hm hdue => ?_
    have hnot := List.all_eq_true.mp (List.all_eq_true.mp hyoung f (tickFamilies_mem hf)) m
      (mem_membersOf.mp hm).1
    rw [show m.comesDue f.policy 1 = true from hdue] at hnot
    exact absurd hnot (by decide)
  obtain ⟨⟨proof, t⟩, htick⟩ := Option.isSome_iff_exists.mp hsome
  have hages := hclaim ⟨"large", "small"⟩ s {} hreach rfl le_rfl proof t htick
  have hpage := (agesAll_iff htick (inv_of_reachable hreach) rfl le_rfl).mp hages
  exact absurd hpage (not_le.mpr (of_decide_eq_true hlong))

end Persola.City
