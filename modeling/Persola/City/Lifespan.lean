import Persola.City.Fates
import Persola.City.Succession

/-!
# `City.Lifespan` — what a tick leaves of the living

Growth, structured thinking and age stay within their ranges in every reachable city (`Store.Fit`). That the living
have some of their life left after a tick over their family depends on the policy: `update_family_policy` clamps
`max_age_ticks`, `create_family` takes what it is given, and with a limit of zero an heir is born as old as it may
get (`lifeTick_vigorous_iff`).
-/

namespace Persola.City

open Store

variable {tiers : ModelTier} {s r t : Store} {m heir : FamilyMemberModel} {family : FamilyModel} {p q : LifeProof}
  {req : TickRequest} {policy : Policy}

/-- The figures of a member are within their ranges. -/
structure FamilyMemberModel.InRange (m : FamilyMemberModel) : Prop where
  growth : 0 ≤ m.growth ∧ m.growth ≤ 1
  thinking : 0 ≤ m.structuredThinking ∧ m.structuredThinking ≤ 1
  age : 0 ≤ m.ageTicks

/-- The member is within its ranges, and has some of its life left. -/
structure FamilyMemberModel.Vigorous (policy : Policy) (m : FamilyMemberModel) : Prop extends m.InRange where
  left : m.ageTicks < m.maxAgeTicks
  limit : ∀ n, policy.maxAgeTicks = some n → m.maxAgeTicks = n

/-- The members are within their ranges, and live at least one tick where the policy leaves the limit to them. -/
structure Store.Fit (s : Store) : Prop where
  inRange : ∀ m ∈ s.members, m.InRange
  limit : ∀ f ∈ s.families, f.policy.maxAgeTicks = none → ∀ m ∈ s.membersOf f.id, 1 ≤ m.maxAgeTicks

/-- After the tick, the living members of every family it came to are vigorous. -/
def TickVigorous (tiers : ModelTier) (s : Store) : Call → Prop
  | .lifeTick req => ∀ proof t, City.lifeTick tiers s req = some (proof, t) →
      ∀ f ∈ s.tickFamilies req, ∀ m ∈ t.livingOf f.id, m.Vigorous f.policy
  | _ => True

/-- A tick comes only to families whose policy, if it sets a limit, lets its members live for a tick. -/
def TickPositive (s : Store) : Call → Prop
  | .lifeTick req => ∀ f ∈ s.tickFamilies req, ∀ n ∈ f.policy.maxAgeTicks, 1 ≤ n
  | _ => True

instance decidableTickPositive : ∀ s c, Decidable (TickPositive s c)
  | s, .lifeTick req => inferInstanceAs (Decidable (∀ f ∈ s.tickFamilies req, ∀ n ∈ f.policy.maxAgeTicks, 1 ≤ n))
  | _, .createFamily .. | _, .spawnChild .. | _, .updateFamilyPolicy .. | _, .updateMemberLife ..
  | _, .work .. => .isTrue trivial

/-! ## The ranges -/

theorem defaultStructuredThinking_range (roleLabel : Option String) :
    0 ≤ defaultStructuredThinking roleLabel ∧ defaultStructuredThinking roleLabel ≤ 1 := by
  unfold defaultStructuredThinking
  split <;> norm_num

theorem numOr_half_range {x : ℚ} (h : 0 ≤ x ∧ x ≤ 1) : 0 ≤ numOr x (1/2) ∧ numOr x (1/2) ≤ 1 := by
  unfold numOr
  split
  · norm_num
  · exact h

theorem FamilyMemberModel.InRange.age_of (h : m.InRange) (forceAge : ℤ) : (m.age policy forceAge).InRange where
  growth := ⟨le_min zero_le_one (by linarith [h.growth.1]), min_le_left _ _⟩
  thinking := ⟨le_min zero_le_one (by linarith [(numOr_half_range h.thinking).1]), min_le_left _ _⟩
  age := add_nonneg h.age (zero_le_one.trans (le_max_left _ _))

theorem FamilyMemberModel.InRange.fate_of (h : m.InRange) : (m.fate policy req).InRange := by
  have haged : (m.age policy req.forceAge).InRange := h.age_of req.forceAge
  unfold fate
  split
  · exact ⟨haged.growth, haged.thinking, haged.age⟩
  · split
    · exact haged
    · exact h

theorem FamilyMemberModel.IsHeir.inRange (h : m.IsHeir policy heir) (hm : m.InRange) : heir.InRange where
  growth := by
    rw [h.growth]
    exact ⟨le_min zero_le_one (by linarith [hm.growth.1]), min_le_left _ _⟩
  thinking := by
    rw [h.thinking]
    exact ⟨le_min zero_le_one (by linarith [(numOr_half_range hm.thinking).1, hm.growth.1]), min_le_left _ _⟩
  age := h.age.ge

/-! ## What the calls write -/

/-- `create_family` adds a family and its founder. -/
theorem createFamily_rows {creq : CreateFamily} {now : Time} {id : FamilyId}
    (h : createFamily tiers s creq now = some (id, t)) :
    ∃ f m, t.families = s.families ++ [f] ∧ t.members = s.members ++ [m] ∧ s.fresh ≤ f.id ∧ m.familyId = f.id ∧
      m.InRange ∧ m.maxAgeTicks = f.policy.maxAgeTicks.getD defaultMaxAgeTicks := by
  obtain ⟨district, -, h⟩ := Option.bind_eq_some_iff.mp h
  obtain ⟨⟨agent, r⟩, hagent, h⟩ := Option.bind_eq_some_iff.mp h
  obtain ⟨maxAgeTicks, -, h⟩ := Option.bind_eq_some_iff.mp h
  obtain ⟨-, rfl⟩ := Prod.mk.inj (Option.some.inj h)
  obtain ⟨hhires, -⟩ := parentAgent_spec hagent
  refine ⟨_, _, congrArg (· ++ _) hhires.families, congrArg (· ++ _) hhires.members, hhires.fresh, rfl, ?_, rfl⟩
  exact ⟨⟨le_rfl, zero_le_one⟩, defaultStructuredThinking_range _, le_rfl⟩

/-- `spawn_child` adds a member to the family of its parent. -/
theorem spawnChild_rows {sreq : SpawnChild} (h : spawnChild tiers s sreq = some (m, t)) :
    ∃ f parent child, f ∈ s.families ∧ parent ∈ s.membersOf f.id ∧ t.families = s.families ∧
      t.members = s.members ++ [child] ∧ child.familyId = f.id ∧ child.InRange ∧
      child.maxAgeTicks = f.policy.maxAgeTicks.getD parent.maxAgeTicks := by
  obtain ⟨f, hf, h⟩ := Option.bind_eq_some_iff.mp h
  obtain ⟨parent, hparent, h⟩ := Option.bind_eq_some_iff.mp h
  obtain ⟨parentAgent, -, h⟩ := Option.bind_eq_some_iff.mp h
  obtain ⟨profile, -, h⟩ := Option.bind_eq_some_iff.mp h
  obtain ⟨-, rfl⟩ := Prod.mk.inj (Option.some.inj h)
  obtain ⟨hmem, hfam⟩ := spawnParent_mem hparent
  have hparentOf : parent ∈ s.membersOf f.id :=
    mem_membersOf.mpr ⟨hmem, hfam.trans (getFamily_id hf).symm⟩
  refine ⟨f, parent, _, List.mem_of_find?_eq_some hf, hparentOf, rfl, rfl, rfl, ?_, rfl⟩
  exact ⟨⟨le_rfl, zero_le_one⟩, defaultStructuredThinking_range _, le_rfl⟩

/-! ## The ranges hold -/

/-- The family of an id is one. -/
theorem family_unique (hs : s.Inv) {f g : FamilyModel} (hf : f ∈ s.families) (hg : g ∈ s.families)
    (hid : f.id = g.id) : f = g :=
  List.inj_on_of_nodup_map hs.tables.families_nodup hf hg hid

theorem fate_maxAgeTicks (hpolicy : policy.maxAgeTicks = none) :
    (m.fate policy req).maxAgeTicks = m.maxAgeTicks := by
  have haged : (m.age policy req.forceAge).maxAgeTicks = m.maxAgeTicks := by
    simp [FamilyMemberModel.age, hpolicy]
  unfold FamilyMemberModel.fate
  split
  · exact haged
  · split
    · exact haged
    · rfl

/-- **A tick keeps the ranges.** -/
theorem lifeTick_fit (hs : s.Inv) (hfit : s.Fit) (h : lifeTick tiers s req = some (q, t)) : t.Fit := by
  obtain ⟨-, -, hfamilies, -⟩ := lifeTick_spec h hs
  constructor
  · intro m hm
    rcases mem_after_tick hs h hm with ⟨f, hf, -, ⟨x, hx, rfl⟩ | ⟨x, hx, hheir⟩⟩ | ⟨-, hold⟩
    · exact (hfit.inRange x (mem_membersOf.mp hx).1).fate_of
    · exact hheir.inRange ((hfit.inRange x (mem_membersOf.mp hx).1).age_of _)
    · exact hfit.inRange m hold
  · intro g hg hnone m hm
    obtain ⟨hmem, hfam⟩ := mem_membersOf.mp hm
    rw [hfamilies] at hg
    rcases mem_after_tick hs h hmem with ⟨f, hf, hid, hrow⟩ | ⟨-, hold⟩
    · obtain rfl : g = f := family_unique hs hg (tickFamilies_mem hf) (hfam.symm.trans hid)
      rcases hrow with ⟨x, hx, rfl⟩ | ⟨x, hx, hheir⟩
      · rw [fate_maxAgeTicks hnone]
        exact hfit.limit g hg hnone x hx
      · have hx := hfit.limit g hg hnone x hx
        rw [hheir.limit, hnone]
        show 1 ≤ numOr (g.policy.maxAgeTicks.getD x.maxAgeTicks) defaultMaxAgeTicks
        rw [hnone]
        show 1 ≤ numOr x.maxAgeTicks defaultMaxAgeTicks
        unfold numOr
        rw [if_neg (by omega)]
        exact hx
    · exact hfit.limit g hg hnone m (mem_membersOf.mpr ⟨hold, hfam⟩)

/-- A member that joins a family keeps the ranges. -/
theorem Store.Fit.join (hfit : s.Fit) {new : FamilyMemberModel} (hmembers : t.members = s.members ++ [new])
    (hnew : new.InRange) (hfamilies : ∀ f ∈ t.families, f ∈ s.families ∨ ∀ m ∈ s.members, m.familyId ≠ f.id)
    (hlimit : ∀ f ∈ t.families, f.policy.maxAgeTicks = none → new.familyId = f.id → 1 ≤ new.maxAgeTicks) :
    t.Fit := by
  constructor
  · intro m hm
    rcases List.mem_append.mp (hmembers ▸ hm) with hold | hm
    · exact hfit.inRange m hold
    · rw [List.mem_singleton.mp hm]
      exact hnew
  · intro f hf hnone m hm
    obtain ⟨hmem, hfam⟩ := mem_membersOf.mp hm
    rcases List.mem_append.mp (hmembers ▸ hmem) with hold | hm
    · rcases hfamilies f hf with hf | hempty
      · exact hfit.limit f hf hnone m (mem_membersOf.mpr ⟨hold, hfam⟩)
      · exact absurd hfam (hempty m hold)
    · obtain rfl := List.mem_singleton.mp hm
      exact hlimit f hf hnone hfam

theorem createFamily_fit (hs : s.Inv) (hfit : s.Fit) {creq : CreateFamily} {now : Time} {id : FamilyId}
    (h : createFamily tiers s creq now = some (id, t)) : t.Fit := by
  obtain ⟨f, m, hfamilies, hmembers, hfresh, hfam, hrange, hmax⟩ := createFamily_rows h
  -- nobody is in a family before it is founded
  have hnone : ∀ x ∈ s.members, x.familyId ≠ f.id := by
    intro x hx heq
    obtain ⟨g, hg, hgid⟩ := hs.wellFormed.family_mem _ (kin_mem_lineage hx)
    exact absurd (hs.tables.family_lt g hg) (not_lt.mpr (hgid.trans heq ▸ hfresh))
  refine hfit.join hmembers hrange (fun g hg => ?_) fun g hg hnolimit hgid => ?_
  · rcases List.mem_append.mp (hfamilies ▸ hg) with hold | hg
    · exact .inl hold
    · rw [List.mem_singleton.mp hg]
      exact .inr hnone
  · rcases List.mem_append.mp (hfamilies ▸ hg) with hold | hg
    · exact absurd (hs.tables.family_lt g hold) (not_lt.mpr ((hfam.symm.trans hgid) ▸ hfresh))
    · obtain rfl := List.mem_singleton.mp hg
      rw [hmax, hnolimit]
      decide

theorem spawnChild_fit (hs : s.Inv) (hfit : s.Fit) {sreq : SpawnChild} (h : spawnChild tiers s sreq = some (m, t)) :
    t.Fit := by
  obtain ⟨f, parent, child, hf, hparent, hfamilies, hmembers, hfam, hrange, hmax⟩ := spawnChild_rows h
  refine hfit.join hmembers hrange (fun g hg => .inl (hfamilies ▸ hg)) fun g hg hnolimit hgid => ?_
  obtain rfl : g = f := family_unique hs (hfamilies ▸ hg) hf (hgid.symm.trans hfam)
  rw [hmax, hnolimit]
  exact hfit.limit g hf hnolimit parent hparent

theorem updateFamilyPolicy_fit (hfit : s.Fit) {id : FamilyId} {patch : PolicyRequest} {now : Time}
    (h : updateFamilyPolicy s id patch now = some t) : t.Fit := by
  obtain ⟨family, hfamily, h⟩ := Option.bind_eq_some_iff.mp h
  obtain ⟨maxAge, -, h⟩ := Option.bind_eq_some_iff.mp h
  obtain ⟨cohesion, -, h⟩ := Option.bind_eq_some_iff.mp h
  obtain rfl := Option.some.inj h
  constructor
  · intro m hm
    obtain ⟨x, hx, rfl⟩ := List.mem_map.mp hm
    have hrange := hfit.inRange x hx
    split
    · exact ⟨hrange.growth, hrange.thinking, hrange.age⟩
    · exact hrange
  · intro f hf hnone m hm
    obtain ⟨g, hg, rfl⟩ := List.mem_map.mp hf
    obtain ⟨hmem, hfam⟩ := mem_membersOf.mp hm
    obtain ⟨x, hx, rfl⟩ := List.mem_map.mp hmem
    have hxfam : x.familyId = g.id := by
      split at hfam <;> split at hfam <;> exact hfam
    by_cases hgid : g.id = id
    · rw [if_pos hgid] at hnone
      -- a limit stays once it is set, so there was none before
      have hbefore : family.policy.maxAgeTicks = none := ((Option.orElse_eq_none _ _).mp hnone).2
      have hlimit := hfit.limit family (List.mem_of_find?_eq_some hfamily) hbefore x
        (mem_membersOf.mpr ⟨hx, hxfam.trans (hgid.trans (getFamily_id hfamily).symm)⟩)
      split
      · show 1 ≤ Option.getD _ x.maxAgeTicks
        rw [hnone]
        exact hlimit
      · exact hlimit
    · rw [if_neg hgid] at hnone
      rw [if_neg fun hedit => hgid (hxfam.symm.trans hedit.1)]
      exact hfit.limit g hg hnone x (mem_membersOf.mpr ⟨hx, hxfam⟩)

theorem updateMemberLife_fit (hfit : s.Fit) {id : MemberId} {goals dreams : Option (List String)}
    {structuredThinking : Option ℚ} (h : updateMemberLife s id goals dreams structuredThinking = some t) :
    t.Fit := by
  obtain ⟨_, -, h⟩ := Option.bind_eq_some_iff.mp h
  obtain rfl := Option.some.inj h
  constructor
  · intro m hm
    obtain ⟨x, hx, rfl⟩ := List.mem_map.mp hm
    have hrange := hfit.inRange x hx
    split
    · refine ⟨hrange.growth, ?_, hrange.age⟩
      cases structuredThinking with
      | none => exact hrange.thinking
      | some v => exact clampKnob_range v
    · exact hrange
  · intro f hf hnone m hm
    obtain ⟨hmem, hfam⟩ := mem_membersOf.mp hm
    obtain ⟨x, hx, rfl⟩ := List.mem_map.mp hmem
    by_cases hid : x.id = id
    · rw [if_pos hid] at hfam ⊢
      exact hfit.limit f hf hnone x (mem_membersOf.mpr ⟨hx, hfam⟩)
    · rw [if_neg hid] at hfam ⊢
      exact hfit.limit f hf hnone x (mem_membersOf.mpr ⟨hx, hfam⟩)

/-- Every call keeps the ranges. -/
theorem call_fit (hs : s.Inv) (hfit : s.Fit) {c : Call} (h : s.call tiers c = some t) : t.Fit := by
  cases c with
  | createFamily req now =>
      obtain ⟨⟨id, t'⟩, hcall, rfl⟩ := Option.map_eq_some_iff.mp h
      exact createFamily_fit hs hfit hcall
  | spawnChild req =>
      obtain ⟨⟨child, t'⟩, hcall, rfl⟩ := Option.map_eq_some_iff.mp h
      exact spawnChild_fit hs hfit hcall
  | updateFamilyPolicy id patch now => exact updateFamilyPolicy_fit hfit h
  | updateMemberLife id goals dreams structuredThinking => exact updateMemberLife_fit hfit h
  | lifeTick req =>
      obtain ⟨⟨proof, t'⟩, hcall, rfl⟩ := Option.map_eq_some_iff.mp h
      exact lifeTick_fit hs hfit hcall
  | work jobs =>
      obtain rfl := Option.some.inj h
      exact ⟨hfit.inRange, hfit.limit⟩

theorem fit_of_founding (h : s.Founding) : s.Fit :=
  ⟨by simp [h.members], by simp [h.families]⟩

theorem fit_of_reachable (h : (system tiers).Reachable s) : s.Fit := by
  have hboth := h.invariant (I := fun s => s.Inv ∧ s.Fit)
    (fun _ h0 => ⟨inv_of_founding h0, fit_of_founding h0⟩)
    fun _ _ _ hs _ hcall => ⟨call_inv hs.1 hcall, call_fit hs.1 hs.2 hcall⟩
  exact hboth.2

/-! ## The tick -/

/-- A member that survives a tick over its family has some of its life left. -/
theorem vigorous_of_survives (hrange : m.InRange) (hmax : policy.maxAgeTicks = none → 1 ≤ m.maxAgeTicks)
    (hliving : (m.fate policy req).living) : (m.fate policy req).Vigorous policy := by
  rw [FamilyMemberModel.fate_living, Bool.and_eq_true, Bool.not_eq_true'] at hliving
  obtain ⟨halive, hlives⟩ := hliving
  have hfate : m.fate policy req = m.age policy req.forceAge := by
    unfold FamilyMemberModel.fate
    rw [if_neg (by rw [hlives]; exact Bool.false_ne_true), if_pos halive]
  have hyoung : m.ageTicks + max 1 req.forceAge < m.lifespan policy := by
    unfold FamilyMemberModel.comesDue at hlives
    rw [halive, Bool.true_and, decide_eq_false_iff_not, not_le] at hlives
    exact hlives
  rw [hfate]
  refine { hrange.age_of req.forceAge with left := ?_, limit := fun n hn => ?_ }
  · show m.ageTicks + max 1 req.forceAge < policy.maxAgeTicks.getD m.maxAgeTicks
    unfold FamilyMemberModel.lifespan at hyoung
    cases hpolicy : policy.maxAgeTicks with
    | some n =>
        rw [hpolicy] at hyoung
        exact hyoung
    | none =>
        have hpositive := hmax hpolicy
        rw [hpolicy] at hyoung
        unfold numOr at hyoung
        rwa [Option.getD_none, if_neg (by omega)] at hyoung
  · show policy.maxAgeTicks.getD m.maxAgeTicks = n
    rw [hn]
    rfl

/-- So has an heir, if the policy lets it live at all. -/
theorem FamilyMemberModel.IsHeir.vigorous (h : m.IsHeir policy heir) (hm : m.InRange)
    (hmax : policy.maxAgeTicks = none → 1 ≤ m.maxAgeTicks) (hpositive : ∀ n ∈ policy.maxAgeTicks, 1 ≤ n) :
    heir.Vigorous policy := by
  refine { h.inRange hm with left := ?_, limit := fun n hn => ?_ }
  · rw [h.age, h.limit]
    cases hpolicy : policy.maxAgeTicks with
    | some n => exact hpositive n hpolicy
    | none =>
        have hpos := hmax hpolicy
        show 0 < numOr m.maxAgeTicks defaultMaxAgeTicks
        unfold numOr
        rw [if_neg (by omega)]
        omega
  · rw [h.limit, hn]
    rfl

/-- **A tick leaves the living vigorous exactly if every policy it meets lets them live.** -/
theorem lifeTick_vigorous_iff (hs : s.Inv) (hfit : s.Fit) (h : lifeTick tiers s req = some (q, t)) :
    (∀ f ∈ s.tickFamilies req, ∀ m ∈ t.livingOf f.id, m.Vigorous f.policy) ↔
      ∀ f ∈ s.tickFamilies req, ∀ n ∈ f.policy.maxAgeTicks, 1 ≤ n := by
  obtain ⟨ht, -, hfamilies, -⟩ := lifeTick_spec h hs
  constructor
  · intro hvigorous f hf n hn
    -- the family has a living parent, which is no younger than it was born
    have hone := ht.ancestry.one_parent f (hfamilies ▸ tickFamilies_mem hf)
    obtain ⟨m, hm⟩ := List.length_eq_one_iff.mp hone
    have hparent : m ∈ t.livingParents f.id := by
      rw [hm]
      exact List.mem_singleton_self m
    obtain ⟨hrow, hliving⟩ := List.mem_filter.mp hparent
    have hvig := hvigorous f hf m (List.mem_filter.mpr ⟨(List.mem_filter.mp hrow).1, hliving⟩)
    have hleft := hvig.left
    rw [hvig.limit n hn] at hleft
    have hage := hvig.age
    omega
  · intro hpositive f hf m hm
    obtain ⟨hrow, hliving⟩ := List.mem_filter.mp hm
    have hlimit (x) (hx : x ∈ s.membersOf f.id) (hnone : f.policy.maxAgeTicks = none) : 1 ≤ x.maxAgeTicks :=
      hfit.limit f (tickFamilies_mem hf) hnone x hx
    obtain ⟨heirs, hrows, hheirs, -⟩ := lifeTick_rows h hs hf
    rw [hrows] at hrow
    rcases List.mem_append.mp hrow with hold | hheir
    · obtain ⟨x, hx, rfl⟩ := List.mem_map.mp hold
      exact vigorous_of_survives (hfit.inRange x (mem_membersOf.mp hx).1) (hlimit x hx) hliving
    · obtain ⟨d, hd, hisHeir⟩ := exists_succeeded hheirs hheir
      obtain ⟨x, hx, -, rfl⟩ := exists_of_mem_deaths hd
      refine hisHeir.vigorous ((hfit.inRange x (mem_membersOf.mp hx).1).age_of _) (fun hnone => ?_) (hpositive f hf)
      show 1 ≤ f.policy.maxAgeTicks.getD x.maxAgeTicks
      rw [hnone]
      exact hlimit x hx hnone

/-- **In a run, every completed tick leaves the living vigorous exactly if every policy it meets lets them
    live.** -/
theorem vigorous_throughout_iff {s₀ : Store} (h0 : (system tiers).init s₀) {calls : List Call}
    (h : (system tiers).exec s₀ calls = some t) :
    (system tiers).Meets (TickVigorous tiers) s₀ calls ↔ (system tiers).Meets TickPositive s₀ calls := by
  have hkeep : ∀ (s : Store) (c : Call) (u : Store), s.Inv ∧ s.Fit → (system tiers).step s c = some u →
      u.Inv ∧ u.Fit := fun s c u hs hstep => ⟨call_inv hs.1 hstep, call_fit hs.1 hs.2 hstep⟩
  have hstart : s₀.Inv ∧ s₀.Fit := ⟨inv_of_founding h0, fit_of_founding h0⟩
  constructor
  · refine Runs.System.meets_mono (I := fun s => s.Inv ∧ s.Fit) (fun s c u hs _ => hkeep s c u hs) ?_ hstart h
    intro s c hs hsome hc
    cases c with
    | lifeTick req =>
        obtain ⟨u, hu⟩ := Option.isSome_iff_exists.mp hsome
        obtain ⟨⟨proof, u'⟩, htick, -⟩ := Option.map_eq_some_iff.mp hu
        exact (lifeTick_vigorous_iff hs.1 hs.2 htick).mp (hc proof u' htick)
    | createFamily | spawnChild | updateFamilyPolicy | updateMemberLife | work => trivial
  · refine Runs.System.meets_mono (I := fun s => s.Inv ∧ s.Fit) (fun s c u hs _ => hkeep s c u hs) ?_ hstart h
    intro s c hs _ hc
    cases c with
    | lifeTick req => exact fun proof u htick => (lifeTick_vigorous_iff hs.1 hs.2 htick).mpr hc
    | createFamily | spawnChild | updateFamilyPolicy | updateMemberLife | work => trivial

/-- In the city of two generations the living are vigorous after every tick. -/
theorem vigorous_twoGenerations :
    (system ⟨"large", "small"⟩).Meets (TickVigorous ⟨"large", "small"⟩) emptyCity twoGenerations := by
  have hex : ((system ⟨"large", "small"⟩).exec emptyCity twoGenerations).isSome := by
    decide +kernel
  obtain ⟨t, hrun⟩ := Option.isSome_iff_exists.mp hex
  exact (vigorous_throughout_iff init_emptyCity hrun).mpr (by decide +kernel)

/-- A family whose members may not live at all, and a tick. -/
def noLife : List Call :=
  [.createFamily { name := "Moss", policy := { maxAgeTicks := some (some 0) } } 1, .lifeTick { now := 2 }]

/-- **An heir that is due when it is born**: `create_family` takes a limit of zero as it is. -/
theorem heir_born_due : ¬ ∀ (tiers : ModelTier) (s₀ t : Store) (calls : List Call), (system tiers).init s₀ →
    (system tiers).exec s₀ calls = some t → (system tiers).Meets (TickVigorous tiers) s₀ calls := by
  intro hclaim
  have hex : ((system ⟨"large", "small"⟩).exec emptyCity noLife).isSome := by
    decide +kernel
  obtain ⟨t, hrun⟩ := Option.isSome_iff_exists.mp hex
  have hmeets := hclaim _ emptyCity t noLife init_emptyCity hrun
  have hfounded : ((system ⟨"large", "small"⟩).exec emptyCity (noLife.take 1)).any (fun s =>
      (lifeTick ⟨"large", "small"⟩ s { now := 2 }).isSome &&
        (s.tickFamilies { now := 2 }).any fun f => f.policy.maxAgeTicks = some 0) = true := by
    decide +kernel
  obtain ⟨s, hfound, htest⟩ := Runs.System.exists_of_exec hfounded
  obtain ⟨htick, hany⟩ := Bool.and_eq_true_iff.mp htest
  obtain ⟨⟨proof, u⟩, htick⟩ := Option.isSome_iff_exists.mp htick
  obtain ⟨f, hf, hzero⟩ := List.any_eq_true.mp hany
  obtain ⟨s', hstep, hnil⟩ := Option.bind_eq_some_iff.mp hfound
  obtain rfl := Option.some.inj hnil
  have hreach := Runs.System.reachable_of_exec init_emptyCity hfound
  have hpositive := (lifeTick_vigorous_iff (inv_of_reachable hreach) (fit_of_reachable hreach) htick).mp
    ((hmeets.2 s' hstep).1 proof u htick)
  exact absurd (hpositive f hf 0 (of_decide_eq_true hzero)) (by decide)

end Persola.City
