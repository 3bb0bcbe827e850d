import Persola.City.Fates
import Persola.City.Succession

/-!
# `City.Attachment` — whom the heirs of a tick hang under

A child's heir is attached to the parent that lives when the heir is made. If that parent dies later in the same
tick, its own heir is the parent that lives at the end, and the child's heir hangs under the dead
(`heirs_hang_iff`).
-/

namespace Persola.City

open Store

variable {tiers : ModelTier} {s t u v : Store} {m heir : FamilyMemberModel} {family : FamilyModel} {now : Time}
  {p q : LifeProof} {req : TickRequest}

namespace Store

/-- The children that have come to a family of `s` by the state `t` hang under its living parent. -/
def HangsIn (s t : Store) (id : FamilyId) : Prop :=
  ∀ m ∈ t.membersOf id, s.fresh ≤ m.id → m.roleInFamily = .child →
    ∃ p ∈ t.livingParents id, m.parentMemberId = some p.id

/-- Every child-role heir that a tick bore hangs under the living parent of its family. -/
def HeirsHang (s t : Store) : Prop :=
  ∀ m ∈ t.members, s.fresh ≤ m.id → m.roleInFamily = .child →
    ∃ p ∈ t.livingParents m.familyId, m.parentMemberId = some p.id

/-- No child of a family dies in the tick before the family's parent does. -/
def ParentFirst (s : Store) (req : TickRequest) (family : FamilyModel) : Prop :=
  ∀ m ∈ (s.deaths family req).tail, m.roleInFamily = .child

theorem mem_livingParents {id : FamilyId} :
    m ∈ s.livingParents id ↔ m ∈ s.membersOf id ∧ m.roleInFamily = .parent ∧ m.living := by
  unfold livingParents parentRows
  rw [List.mem_filter, List.mem_filter, decide_eq_true_iff, and_assoc]

end Store

theorem role_cases (role : FamilyMemberRole) : role = .child ↔ role ≠ .parent := by
  cases role <;> simp

/-! ## The living parent -/

/-- A family has one living parent. -/
theorem livingParent_unique (hs : s.Inv) (hf : family ∈ s.families) {a b : FamilyMemberModel}
    (ha : a ∈ s.livingParents family.id) (hb : b ∈ s.livingParents family.id) : a = b := by
  obtain ⟨x, hx⟩ := List.length_eq_one_iff.mp (hs.ancestry.one_parent family hf)
  rw [hx, List.mem_singleton] at ha hb
  exact ha.trans hb.symm

/-- Two parents do not die in one tick. -/
theorem deaths_parent_unique (hs : s.Inv) (hf : family ∈ s.families) {a b : FamilyMemberModel}
    (ha : a ∈ s.deaths family req) (hb : b ∈ s.deaths family req) (hparent : a.roleInFamily = .parent)
    (hparent' : b.roleInFamily = .parent) : a = b := by
  have hlives : ∀ x ∈ s.deaths family req, x.roleInFamily = .parent →
      x ∈ (s.ageFamily family req.forceAge).livingParents family.id := by
    intro x hx hrole
    obtain ⟨hmem, hliving, hfam⟩ := (doomed_deaths hs).mem x hx
    exact mem_livingParents.mpr ⟨mem_membersOf.mpr ⟨hmem, hfam⟩, hrole, hliving⟩
  exact livingParent_unique (ageFamily_inv hs) hf (hlives a ha hparent) (hlives b hb hparent')

/-- The death of a child leaves the living parents alone. -/
theorem livingParents_bury (hs : s.Inv) (hm : m ∈ s.members) (hchild : m.roleInFamily = .child) (id : FamilyId) :
    (s.bury m now).livingParents id = s.livingParents id := by
  have hrows : (s.bury m now).membersOf id =
      (s.membersOf id).map fun x => if x.id = m.id then x.die now else x := by
    refine membersOf_map (fun x => ?_) id
    split <;> rfl
  have hsame : ∀ x ∈ s.parentRows id, (if x.id = m.id then x.die now else x) = x := by
    intro x hx
    obtain ⟨hrow, hparent⟩ := List.mem_filter.mp hx
    refine if_neg fun hid => ?_
    obtain rfl := mem_members_unique hs (mem_membersOf.mp hrow).1 hm hid
    exact (role_cases _).mp hchild (of_decide_eq_true hparent)
  have hparents : (s.bury m now).parentRows id = s.parentRows id := by
    refine Eq.trans ?_ ((List.map_congr_left hsame).trans (List.map_id _))
    unfold parentRows
    rw [hrows, List.filter_map]
    congr 2
    funext x
    rw [Function.comp_apply]
    split <;> rfl
  unfold livingParents
  rw [hparents]

/-- While a child is succeeded, `get_parent` answers the living parent. -/
theorem parentForLineage_of_child (hs : s.Inv) (hf : family ∈ s.families) (hm : m ∈ s.members)
    (hchild : m.roleInFamily = .child) {parent : Option FamilyMemberModel}
    (hparent : (s.bury m now).getParent family.id = some parent) :
    ∃ p ∈ s.livingParents family.id, parentForLineage m parent = p.id := by
  obtain ⟨p, hp⟩ := List.length_eq_one_iff.mp (hs.ancestry.one_parent family hf)
  have hmem : p ∈ s.livingParents family.id := hp ▸ List.mem_singleton_self p
  obtain ⟨hrow, -, hliving⟩ := mem_livingParents.mp hmem
  have halive := (hs.tables.vital p (mem_membersOf.mp hrow).1).living_iff.mp hliving
  have hget : (s.bury m now).getParent family.id = some (some p) := by
    show ((scalarOneOrNone ((s.bury m now).livingParents family.id)).bind _) = _
    rw [livingParents_bury hs hm hchild, hp]
    rfl
  obtain rfl := Option.some.inj (hparent.symm.trans hget)
  exact ⟨p, hmem, if_pos halive⟩

/-! ## One death -/

/-- Whom the new children of the family hang under when one more has died: those there are, and the heir. -/
theorem hanging_iff {C : Option MemberId → Prop} (hrows : v.membersOf family.id =
      ((u.membersOf family.id).map fun x => if x.id = m.id then x.die now else x) ++ [heir]) :
    (∀ x ∈ v.membersOf family.id, s.fresh ≤ x.id → x.roleInFamily = .child → C x.parentMemberId) ↔
      (∀ x ∈ u.membersOf family.id, s.fresh ≤ x.id → x.roleInFamily = .child → C x.parentMemberId) ∧
        (s.fresh ≤ heir.id → heir.roleInFamily = .child → C heir.parentMemberId) := by
  rw [hrows, List.forall_mem_append, List.forall_mem_map, List.forall_mem_singleton]
  refine and_congr_left' (forall₂_congr fun x _ => ?_)
  split
  · rfl
  · rfl

/-- **A child dies**: the living parent stays, and the heir hangs under it. -/
theorem hangsIn_of_child (hu : u.Inv) (hf : family ∈ u.families) (hm : m ∈ u.members)
    (hfam : m.familyId = family.id) (hchild : m.roleInFamily = .child)
    (hpass : passOn tiers family now (p, u) m = some (q, v)) : HangsIn s v family.id ↔ HangsIn s u family.id := by
  obtain ⟨parent, heir, hparent, hmembers, -, -, hheir, hunder⟩ := passOn_rows hpass
  obtain ⟨mother, hmother, hmotherId⟩ := parentForLineage_of_child hu hf hm hchild hparent
  have hrows : v.membersOf family.id = _ := membersOf_of_rows hmembers
  rw [if_pos ((hheir hfam).family.trans hfam)] at hrows
  have hparents : ∀ x, x ∈ v.livingParents family.id ↔ x ∈ u.livingParents family.id := by
    intro x
    rw [mem_livingParents, mem_livingParents, mem_membersOf, mem_membersOf, and_assoc, and_assoc]
    by_cases hrole : x.roleInFamily = .parent
    · rw [mem_passOn_parent hpass hu hm hfam ((role_cases _).mp hchild) hrole]
    · simp [hrole]
  unfold HangsIn
  simp only [hparents]
  refine (hanging_iff hrows (C := fun under => ∃ p ∈ u.livingParents family.id, under = some p.id)).trans
    (and_iff_left fun _ _ => ⟨mother, hmother, ?_⟩)
  rw [hunder, if_neg ((role_cases _).mp hchild), hmotherId]

/-- **The parent dies**: its heir is the living parent, under which nobody hangs yet. -/
theorem hangsIn_of_parent (hu : u.Inv) (hf : family ∈ u.families) (hm : m ∈ u.members) (hliving : m.living)
    (hfam : m.familyId = family.id) (hparent : m.roleInFamily = .parent)
    (hpass : passOn tiers family now (p, u) m = some (q, v)) :
    HangsIn s v family.id ↔ ∀ x ∈ u.membersOf family.id, s.fresh ≤ x.id → x.roleInFamily ≠ .child := by
  obtain ⟨parent, heir, -, hmembers, hid, -, hheir, -⟩ := passOn_rows hpass
  have hrows : v.membersOf family.id = _ := membersOf_of_rows hmembers
  rw [if_pos ((hheir hfam).family.trans hfam)] at hrows
  have hv : v.Inv := passOn_inv hpass hu hm hliving hfam
  have hrole : heir.roleInFamily = .parent := (hheir hfam).role.trans hparent
  have hheirParent : heir ∈ v.livingParents family.id := by
    have hrow : heir ∈ v.membersOf family.id := hrows ▸ List.mem_append_right _ (List.mem_singleton_self heir)
    have hborn := hheir hfam
    exact mem_livingParents.mpr ⟨hrow, hrole, by simp [FamilyMemberModel.living, hborn.alive, hborn.active]⟩
  have hvf : family ∈ v.families := (passOn_passes hpass hu hm hliving hfam).families.symm ▸ hf
  have hheirChild : heir.roleInFamily ≠ .child := fun h => (role_cases _).mp h hrole
  refine (hanging_iff hrows (C := fun under => ∃ p ∈ v.livingParents family.id, under = some p.id)).trans
    ((and_iff_left fun _ h => absurd h hheirChild).trans (forall₂_congr fun x hx => forall_congr' fun _ =>
      imp_congr_right fun _ => iff_of_false ?_ id))
  -- whom a row of before hangs under is older than the heir
  rintro ⟨p, hp, hpid⟩
  obtain rfl := livingParent_unique hv hvf hp hheirParent
  obtain ⟨k, hk, hkid, -, -⟩ := hu.wellFormed.under_earlier _ (kin_mem_lineage (mem_membersOf.mp hx).1) p.id hpid
  exact absurd (kin_lt hu.tables k hk) (not_lt.mpr (hkid ▸ hid))

/-! ## The deaths of a family -/

/-- While the deaths are under way, the rows that have come are the heirs. -/
theorem Passing.new_child_iff {done heirs : List FamilyMemberModel} (h : Passing s family req done heirs u)
    (hs : s.Inv) : (∃ x ∈ u.membersOf family.id, s.fresh ≤ x.id ∧ x.roleInFamily = .child) ↔
      ∃ d ∈ done, d.roleInFamily = .child := by
  have hnew : (∃ x ∈ u.membersOf family.id, s.fresh ≤ x.id ∧ x.roleInFamily = .child) ↔
      ∃ x ∈ heirs, x.roleInFamily = .child := by
    constructor
    · rintro ⟨x, hx, hid, hrole⟩
      rw [h.rows] at hx
      rcases List.mem_append.mp hx with hold | hheir
      · obtain ⟨y, hy, rfl⟩ := List.mem_map.mp hold
        have hlt := (ageFamily_inv hs).tables.member_lt y (mem_membersOf.mp hy).1
        refine absurd hlt (not_lt.mpr ?_)
        split at hid <;> exact hid
      · exact ⟨x, hheir, hrole⟩
    · rintro ⟨x, hx, hrole⟩
      exact ⟨x, h.rows ▸ List.mem_append_right _ hx, h.new x hx, hrole⟩
  rw [hnew]
  have hheirs := h.succeeded
  clear h hnew
  induction hheirs with
  | nil => simp
  | cons hheir _ ih => simp only [List.exists_mem_cons_iff, hheir.role, ih]

/-- **The heirs of a family hang under its living parent exactly if no child dies before the parent does.** -/
theorem tickFamily_hangs_iff (hs : s.Inv) (hf : family ∈ s.families)
    (h : tickFamily tiers req (p, s) family = some (q, t)) :
    HangsIn s t family.id ↔ s.ParentFirst req family := by
  have hstart : Passing s family req [] [] (s.ageFamily family req.forceAge) :=
    ⟨by simp, .nil, le_rfl, by simp⟩
  have hnobody : HangsIn s (s.ageFamily family req.forceAge) family.id ↔
      ∀ d ∈ ([] : List FamilyMemberModel).tail, d.roleInFamily = .child := by
    refine iff_of_true (fun x hx hnew => ?_) (by simp)
    exact absurd ((ageFamily_inv hs).tables.member_lt x (mem_membersOf.mp hx).1) (not_lt.mpr hnew)
  have hend := tickFamily_rule
    (P := fun rest w => ∃ done heirs, done ++ rest = s.deaths family req ∧ Passing s family req done heirs w.2 ∧
      w.2.families = s.families ∧ (HangsIn s w.2 family.id ↔ ∀ d ∈ done.tail, d.roleInFamily = .child))
    ?_ hs h ⟨[], [], rfl, hstart, rfl, hnobody⟩
  · obtain ⟨-, done, heirs, hdone, -, -, hangs⟩ := hend
    rw [List.append_nil] at hdone
    rwa [hdone] at hangs
  · rintro m rest p' q' u v hu hm hliving hfam ⟨done, heirs, hdone, hpassing, hfamilies, hangs⟩ hpass
    have hmem : m ∈ s.deaths family req := hdone ▸ List.mem_append_right _ List.mem_cons_self
    have hfu : family ∈ u.families := hfamilies ▸ hf
    obtain ⟨heir, hnext⟩ := hpassing.passOn hfam (deaths_lt hs hmem) hpass
    refine ⟨done ++ [m], heirs ++ [heir], by rw [← hdone, List.append_assoc]; rfl, hnext,
      (passOn_passes hpass hu hm hliving hfam).families.trans hfamilies, ?_⟩
    by_cases hrole : m.roleInFamily = .child
    · rw [hangsIn_of_child hu hfu hm hfam hrole hpass, hangs]
      cases done with
      | nil => simp
      | cons d done => simp [or_imp, forall_and, hrole]
    · have hparent : m.roleInFamily = .parent := by
        by_contra hnot
        exact hrole ((role_cases _).mpr hnot)
      rw [hangsIn_of_parent hu hfu hm hliving hfam hparent hpass]
      cases done with
      | nil =>
          have hnone := (hpassing.new_child_iff hs).not.mpr (by simp)
          exact iff_of_true (fun x hx hnew hchild => hnone ⟨x, hx, hnew, hchild⟩) (by simp)
      | cons d done =>
          -- whoever died before the parent is a child, and its heir has come
          have hd : d ∈ s.deaths family req := hdone ▸ List.mem_append_left _ List.mem_cons_self
          have hchild : d.roleInFamily = .child := by
            refine (role_cases _).mpr fun hdParent => ?_
            obtain rfl := deaths_parent_unique hs hf hd hmem hdParent hparent
            have hdoomed : Doomed family (s.deaths family req) _ := doomed_deaths hs
            have hnodup := hdoomed.nodup
            rw [← hdone] at hnodup
            simp at hnodup
          obtain ⟨x, hx, hnew, hxchild⟩ := (hpassing.new_child_iff hs).mpr ⟨d, List.mem_cons_self, hchild⟩
          refine iff_of_false (fun hnone => hnone x hx hnew hxchild) fun hall => ?_
          have hm' := hall m (by simp)
          rw [hparent] at hm'
          cases hm'

/-! ## The tick -/

theorem livingParents_congr {r : Store} {id : FamilyId} (h : r.membersOf id = s.membersOf id) :
    r.livingParents id = s.livingParents id := by
  unfold livingParents parentRows
  rw [h]

/-- In a family that a tick comes to. -/
theorem lifeTick_hangsIn_iff (hs : s.Inv) (h : lifeTick tiers s req = some (q, t))
    (hf : family ∈ s.tickFamilies req) : HangsIn s t family.id ↔ s.ParentFirst req family := by
  obtain ⟨p', q', u, v, hu, hfresh, hfamilies, hsame, htick, hend⟩ := lifeTick_family h hs hf
  have hone := tickFamily_hangs_iff hu (hfamilies ▸ tickFamilies_mem hf) htick
  unfold ParentFirst at hone ⊢
  rw [deaths_congr hsame] at hone
  rw [← hone]
  obtain ⟨heirs, hrows, -, -, hnew⟩ := tickFamily_rows htick hu
  -- the rows that have come to the family since the tick began are those that came while it was at the family
  have hcome : ∀ x ∈ v.membersOf family.id, s.fresh ≤ x.id ↔ u.fresh ≤ x.id := by
    intro x hx
    refine ⟨fun hx' => ?_, fun hx' => hfresh.trans hx'⟩
    rw [hrows] at hx
    rcases List.mem_append.mp hx with hold | hheir
    · obtain ⟨y, hy, rfl⟩ := List.mem_map.mp hold
      rw [hsame] at hy
      rw [FamilyMemberModel.fate_id] at hx'
      exact absurd (hs.tables.member_lt y (mem_membersOf.mp hy).1) (not_lt.mpr hx')
    · exact hnew x hheir
  unfold HangsIn
  rw [hend, livingParents_congr hend]
  exact forall₂_congr fun x hx => by rw [hcome x hx]

/-- **The heirs of a tick hang under living parents exactly if no child dies before its family's parent does.** -/
theorem heirs_hang_iff (h : (system tiers).Reachable s) (htick : lifeTick tiers s req = some (q, t)) :
    s.HeirsHang t ↔ ∀ f ∈ s.tickFamilies req, s.ParentFirst req f := by
  have hs := inv_of_reachable h
  constructor
  · intro hangs f hf
    refine (lifeTick_hangsIn_iff hs htick hf).mp fun x hx hnew hchild => ?_
    obtain ⟨hmem, hfam⟩ := mem_membersOf.mp hx
    exact hfam ▸ hangs x hmem hnew hchild
  · intro hfirst m hm hnew hchild
    rcases mem_after_tick hs htick hm with ⟨f, hf, hid, -⟩ | ⟨-, hold⟩
    · have hangs := (lifeTick_hangsIn_iff hs htick hf).mpr (hfirst f hf)
      rw [hid]
      exact hangs m (mem_membersOf.mpr ⟨hm, hid⟩) hnew hchild
    · exact absurd (hs.tables.member_lt m hold) (not_lt.mpr hnew)

/-- A family that lives two ticks, with one child, and a first tick. -/
def youngFamilyOfTwo : List Call :=
  [.createFamily { name := "Moss", policy := { maxAgeTicks := some (some 2) } } 1,
   .spawnChild { familyId := 2, name := "Fern", roleLabel := some "executor" }, .lifeTick { now := 2 }]

/-- When the parent dies before its child, the heir of the child hangs under the heir of the parent. -/
theorem heirs_hang_parentFirst : ∃ s, (system ⟨"large", "small"⟩).exec emptyCity youngFamilyOfTwo = some s ∧
    ∃ proof t, lifeTick ⟨"large", "small"⟩ s { now := 3, order := [3, 6] } = some (proof, t) ∧ s.HeirsHang t := by
  have hex : ((system ⟨"large", "small"⟩).exec emptyCity youngFamilyOfTwo).any (fun s =>
      (lifeTick ⟨"large", "small"⟩ s { now := 3, order := [3, 6] }).isSome &&
        (s.tickFamilies { now := 3, order := [3, 6] }).all fun f =>
          (s.deaths f { now := 3, order := [3, 6] }).tail.all fun m => m.roleInFamily = .child) = true := by
    decide +kernel
  obtain ⟨s, hrun, htest⟩ := Runs.System.exists_of_exec hex
  obtain ⟨hsome, hall⟩ := Bool.and_eq_true_iff.mp htest
  obtain ⟨⟨proof, t⟩, htick⟩ := Option.isSome_iff_exists.mp hsome
  refine ⟨s, hrun, proof, t, htick,
    (heirs_hang_iff (Runs.System.reachable_of_exec init_emptyCity hrun) htick).mpr fun f hf m hm => ?_⟩
  exact of_decide_eq_true (List.all_eq_true.mp (List.all_eq_true.mp hall f hf) m hm)

/-- **When the child dies first, its heir hangs under the dead.** -/
theorem heir_under_deceased : ¬ ∀ (tiers : ModelTier) (s t : Store) (req : TickRequest) (proof : LifeProof),
    (system tiers).Reachable s → lifeTick tiers s req = some (proof, t) → s.HeirsHang t := by
  intro hclaim
  have hex : ((system ⟨"large", "small"⟩).exec emptyCity youngFamilyOfTwo).any (fun s =>
      (lifeTick ⟨"large", "small"⟩ s { now := 3, order := [6, 3] }).isSome &&
        (s.tickFamilies { now := 3, order := [6, 3] }).any fun f =>
          (s.deaths f { now := 3, order := [6, 3] }).tail.any fun m => m.roleInFamily = .parent) = true := by
    decide +kernel
  obtain ⟨s, hrun, htest⟩ := Runs.System.exists_of_exec hex
  obtain ⟨hsome, hany⟩ := Bool.and_eq_true_iff.mp htest
  obtain ⟨⟨proof, t⟩, htick⟩ := Option.isSome_iff_exists.mp hsome
  obtain ⟨f, hf, hlate⟩ := List.any_eq_true.mp hany
  obtain ⟨m, hm, hparent⟩ := List.any_eq_true.mp hlate
  have hreach := Runs.System.reachable_of_exec init_emptyCity hrun
  have hangs := hclaim _ s t _ proof hreach htick
  have hin : HangsIn s t f.id := fun x hx hnew hchild => by
    obtain ⟨hmem, hfam⟩ := mem_membersOf.mp hx
    exact hfam ▸ hangs x hmem hnew hchild
  have hfirst := (lifeTick_hangsIn_iff (inv_of_reachable hreach) htick hf).mp hin m hm
  exact (role_cases _).mp hfirst (of_decide_eq_true hparent)

end Persola.City
