import Persola.Lib.Tally
import Persola.City.Ecosystem
import Persola.City.Export

/-!
# `City.Census` — the views of a city

The city shows itself through several views that are computed apart: the snapshot, the ecosystem, the report on the
generations, the memorial, the heartbeat and the health probe. In every reachable city they agree (`census`): everybody
is counted once and in one cohort, the cohorts have no gap, every one of the dead has exactly one heir, a generation
later, and is remembered as long as the memorial has room, which goes through the families one by one, and a city with
a family in it is alive.
-/

namespace Persola.City

open Agent (AgentId)

/-! ## What the views read -/

/-- The rest of what `_serialize_member` returns, as far as the views read it. -/
structure MemberNode extends SerializedMember where
  generation : ℕ
  dreams : List String
  deceasedAt : Option Time
  successorOfId : Option MemberId
deriving DecidableEq

/-- `_serialize_member`. -/
def memberNode (m : FamilyMemberModel) : MemberNode where
  toSerializedMember := serializeMember m
  generation := m.generation
  dreams := m.dreams
  deceasedAt := m.deceasedAt
  successorOfId := m.successorOfId

/-- The member is marked dead. -/
def MemberNode.deceased (m : MemberNode) : Bool := m.lifeStatus = .deceased

/-- A family as `_serialize_family` returns it. -/
structure FamilyDetail where
  id : FamilyId
  name : String
  defaultDistrict : CityDistrict
  members : List MemberNode

/-- The families that every view goes through, with their members in the order the database returns them. -/
def Store.details (s : Store) (order : List MemberId) : List FamilyDetail :=
  (s.citySnapshot order).map fun (f, members) =>
    { id := f.id, name := f.name, defaultDistrict := f.defaultDistrict, members := members.map memberNode }

/-! ## The views -/

/-- What `city_snapshot` says, without the events and the personalities. -/
structure SnapshotView where
  families : List FamilyDetail
  familyCount : ℕ
  agentCount : ℕ
  districts : List (String × ℕ)
  progress : ℚ

/-- `DEFAULT_SCALE_CONFIG.target_agents`. -/
def targetAgents : ℕ := 100

/-- The counts of `city_snapshot`. -/
def Store.snapshotView (s : Store) (order : List MemberId) : SnapshotView :=
  let agents := (s.details order).foldl (fun agents d => agents + d.members.length) 0
  { families := s.details order
    familyCount := (s.details order).length
    agentCount := agents
    districts := (s.details order).foldl
      (fun byDistrict d => Py.setItem byDistrict d.defaultDistrict.name
        ((Py.getItem byDistrict d.defaultDistrict.name).getD 0 + 1))
      [("build", 0), ("viz", 0), ("research", 0), ("ops", 0)]
    progress := min 1 (agents / max 1 targetAgents) }

/-- An entry of `ecosystems`. -/
structure EcosystemEntry where
  familyId : FamilyId
  name : String
  district : CityDistrict
  cohesion : ℚ
  efficiency : ℚ
  living : ℕ
  deceased : ℕ
  generationMax : ℕ
  goals : List String
  dreams : List String

/-- The vitals of the city. -/
structure CityVitals where
  living : ℕ
  deceased : ℕ
  familyCount : ℕ
  generationMax : ℕ
  avgEfficiency : ℚ

/-- The living of a family. -/
def FamilyDetail.alive (d : FamilyDetail) : List MemberNode := d.members.filter (·.living)

/-- The dead of a family. -/
def FamilyDetail.dead (d : FamilyDetail) : List MemberNode := d.members.filter (·.deceased)

/-- `max(xs, default=0)`. -/
def maxOr0 (xs : List ℕ) : ℕ := xs.foldl max 0

/-- What `city_ecosystem` says about a family. -/
def Store.ecosystemEntry (s : Store) (d : FamilyDetail) : EcosystemEntry where
  familyId := d.id
  name := d.name
  district := d.defaultDistrict
  cohesion := ecosystemCohesion (d.members.map (·.toSerializedMember))
  efficiency := s.familyEfficiency d.id d.alive.length
  living := d.alive.length
  deceased := d.dead.length
  generationMax := maxOr0 (d.members.map (·.generation))
  goals := (fromKeys (d.alive.flatMap (·.goals))).take 12
  dreams := (fromKeys (d.alive.flatMap (·.dreams))).take 8

/-- `city_ecosystem`. -/
def Store.cityEcosystem (s : Store) (order : List MemberId) : List EcosystemEntry × CityVitals :=
  let ecosystems := (s.details order).map s.ecosystemEntry
  let efficiencies := ecosystems.map (·.efficiency)
  (ecosystems,
    { living := (ecosystems.map (·.living)).sum
      deceased := (ecosystems.map (·.deceased)).sum
      familyCount := ecosystems.length
      generationMax := maxOr0 (ecosystems.map (·.generationMax))
      avgEfficiency :=
        if efficiencies.isEmpty then 0 else Py.round 4 (efficiencies.sum / max 1 efficiencies.length) })

/-- A bucket of `cohorts`. -/
structure Cohort where
  generation : ℕ
  living : ℕ := 0
  deceased : ℕ := 0
  growthSum : ℚ := 0
  thinkingSum : ℚ := 0
  members : ℕ := 0

/-- What a member adds to the bucket of its generation. -/
def Cohort.add (b : Cohort) (m : MemberNode) : Cohort :=
  if m.deceased then { b with members := b.members + 1, deceased := b.deceased + 1 }
  else { b with
    members := b.members + 1
    living := b.living + 1
    growthSum := b.growthSum + numOr m.growth 0
    thinkingSum := b.thinkingSum + numOr m.structuredThinking (1/2) }

/-- An entry of `generations`. -/
structure GenerationRow where
  generation : ℕ
  living : ℕ
  deceased : ℕ
  members : ℕ
  avgGrowth : ℚ
  avgStructuredThinking : ℚ
  productivityIndex : ℚ

/-- The entry of a bucket. -/
def Cohort.row (b : Cohort) : GenerationRow where
  generation := b.generation
  living := b.living
  deceased := b.deceased
  members := b.members
  avgGrowth := if b.living = 0 then 0 else Py.round 4 (b.growthSum / b.living)
  avgStructuredThinking := if b.living = 0 then 0 else Py.round 4 (b.thinkingSum / b.living)
  productivityIndex :=
    if b.living = 0 then Py.round 4 0 else Py.round 4 (b.thinkingSum / b.living * (1 + b.growthSum / b.living))

/-- `generation_report`, without the families, the vitals and the last tick, which are those of other views. -/
structure GenerationReport where
  generations : List GenerationRow
  legacyEdges : ℕ
  goalBank : List String
  dreamBank : List String
  continuityOk : Bool

/-- Whether the last generation with somebody alive is not much less productive than the first. -/
def continuityOk (generations : List GenerationRow) : Bool :=
  let prod := (generations.filter (0 < ·.living)).map (·.productivityIndex)
  match prod.head?, prod.getLast? with
  | some first, some last => if 2 ≤ prod.length ∧ 0 < first then first * (85/100) ≤ last else true
  | _, _ => true

/-- Everybody in the listed families, in the order of the loops. -/
def Store.everybody (s : Store) (order : List MemberId) : List MemberNode := (s.details order).flatMap (·.members)

/-- The buckets by generation. -/
def Store.cohorts (s : Store) (order : List MemberId) : List (ℕ × Cohort) :=
  Tally.tally (·.generation) (fun generation => { generation }) Cohort.add (s.everybody order)

/-- `generation_report`. -/
def Store.generationReport (s : Store) (order : List MemberId) : GenerationReport :=
  let living := (s.everybody order).filter (!·.deceased)
  let generations := (Select.orderBy Prod.fst (s.cohorts order)).map fun e => e.2.row
  { generations
    legacyEdges := (s.everybody order).countP (·.successorOfId.isSome)
    goalBank := (fromKeys (living.flatMap (·.goals))).take 24
    dreamBank := (fromKeys (living.flatMap (·.dreams))).take 16
    continuityOk := continuityOk generations }

/-- An heir on the memorial. -/
structure HeirNote where
  memberId : MemberId
  agentId : Option AgentId
  generation : ℕ
  lifeStatus : FamilyMemberLifeStatus
deriving DecidableEq

/-- An entry of the memorial. -/
structure MemorialEntry where
  familyId : FamilyId
  familyName : String
  memberId : MemberId
  agentId : Option AgentId
  generation : ℕ
  roleLabel : Option String
  goals : List String
  dreams : List String
  deceasedAt : Option Time
  heirs : List HeirNote
deriving DecidableEq

/-- The entry of a member of a family. -/
def memorialEntry (d : FamilyDetail) (m : MemberNode) : MemorialEntry where
  familyId := d.id
  familyName := d.name
  memberId := m.id
  agentId := m.agentId
  generation := m.generation
  roleLabel := m.roleLabel
  goals := m.goals
  dreams := m.dreams
  deceasedAt := m.deceasedAt
  heirs := (d.members.filter (·.successorOfId = some m.id)).map fun h => ⟨h.id, h.agentId, h.generation, h.lifeStatus⟩

/-- The inner loop: it stops when the roll is full. -/
def appendUntil {α : Type*} (limit : ℤ) : List α → List α → List α
  | entries, [] => entries
  | entries, c :: cs =>
      let entries := entries ++ [c]
      if limit ≤ entries.length then entries else appendUntil limit entries cs

/-- The outer loop. -/
def memorialRoll (limit : ℤ) : List MemorialEntry → List FamilyDetail → List MemorialEntry
  | entries, [] => entries
  | entries, d :: ds =>
      let entries := appendUntil limit entries (d.dead.map (memorialEntry d))
      if limit ≤ entries.length then entries else memorialRoll limit entries ds

/-- `GET /memorial`: the entries of `city_memorial`. -/
def Store.memorial (s : Store) (order : List MemberId) (limit : ℤ) : List MemorialEntry :=
  memorialRoll (min (max limit 1) 500) [] (s.details order)

/-- `city_heartbeat`, without the last pulse: whether the city is alive, and how many families a tick should take. -/
def Store.heartbeat (s : Store) (order : List MemberId) : Bool × ℕ :=
  let snap := s.snapshotView order
  let living := (s.cityEcosystem order).2.living
  (0 < numOr living snap.agentCount, min 8 (max 1 (numOr snap.familyCount 1)))

/-- The status of `city_health`. -/
def Store.healthStatus (s : Store) (order : List MemberId) : String :=
  if 0 < (s.cityEcosystem order).2.living then "alive" else "dormant"

/-! ## Who is there -/

open Store

variable {tiers : ModelTier} {s t : Store} {m : FamilyMemberModel} {order : List MemberId}

/-- Who belongs to a listed family, in the order they came. -/
def Store.listed (s : Store) : List FamilyMemberModel :=
  s.members.filter fun m => decide (∃ f ∈ s.listRecent, f.id = m.familyId)

/-- The member is dead. -/
def FamilyMemberModel.dead (m : FamilyMemberModel) : Bool := m.lifeStatus = .deceased

theorem mem_listed : m ∈ s.listed ↔ s.Exported m := by
  unfold listed Exported
  rw [List.mem_filter, decide_eq_true_iff]

/-- The relatives of the listed are listed. -/
theorem mem_listed_of_family {m' : FamilyMemberModel} (hm : m ∈ s.listed) (hm' : m' ∈ s.members)
    (hfam : m'.familyId = m.familyId) : m' ∈ s.listed :=
  mem_listed.mpr ⟨hm', hfam ▸ (mem_listed.mp hm).2⟩

theorem details_eq (h : s.Tables) : s.details order = s.listRecent.map fun f =>
    { id := f.id, name := f.name, defaultDistrict := f.defaultDistrict
      members := (s.rowsOf order f.id).map memberNode } := by
  unfold details
  rw [citySnapshot_eq h, List.map_map]
  rfl

/-- The loops go through the listed members. -/
theorem everybody_eq (h : s.Tables) : s.everybody order = (s.exported order).map memberNode := by
  rw [everybody, details_eq h, List.flatMap_map, exported, List.map_flatMap]

theorem exported_perm (h : s.Inv) (order : List MemberId) : (s.exported order).Perm s.listed := by
  have hmembers : s.members.Nodup := h.ancestry.in_order.imp fun hlt heq => hlt.ne (congrArg _ heq)
  refine (List.perm_ext_iff_of_nodup (exported_nodup h) (hmembers.filter _)).mpr fun m => ?_
  rw [mem_exported]
  exact mem_listed.symm

/-- **Counting everybody** is counting the listed, in whatever order they come. -/
theorem countP_everybody (h : s.Inv) (p : MemberNode → Bool) :
    (s.everybody order).countP p = s.listed.countP fun m => p (memberNode m) := by
  rw [everybody_eq h.tables, List.countP_map]
  exact (exported_perm h _).countP_eq _

/-! ## The counts -/

theorem foldl_add_eq (l : List FamilyDetail) (n : ℕ) :
    l.foldl (fun agents d => agents + d.members.length) n = n + (l.flatMap (·.members)).length := by
  induction l generalizing n with
  | nil => rfl
  | cons d l ih => rw [List.foldl_cons, ih, List.flatMap_cons, List.length_append, Nat.add_assoc]

theorem agentCount_eq (h : s.Inv) : (s.snapshotView order).agentCount = s.listed.length := by
  show (s.details order).foldl _ 0 = _
  rw [foldl_add_eq, Nat.zero_add, ← (exported_perm h order).length_eq, ← List.length_map memberNode,
    ← everybody_eq h.tables]
  rfl

/-- A count over the families is one over everybody. -/
theorem sum_counts (p : MemberNode → Bool) :
    ((s.details order).map fun d => (d.members.filter p).length).sum = (s.everybody order).countP p := by
  rw [everybody, List.countP_flatMap]
  exact congrArg List.sum (List.map_congr_left fun d _ => List.countP_eq_length_filter.symm)

theorem living_memberNode (h : s.Inv) (hm : m ∈ s.listed) : (memberNode m).living = !m.dead := by
  have hliving : (memberNode m).living = m.living := serializeMember_living m
  rw [hliving, (h.tables.vital m (mem_listed.mp hm).1).living]
  show decide (m.lifeStatus = .alive) = !decide (m.lifeStatus = .deceased)
  cases m.lifeStatus <;> rfl

theorem vitals_living (h : s.Inv) : (s.cityEcosystem order).2.living = s.listed.countP (!·.dead) := by
  have hcount : (s.cityEcosystem order).2.living = (s.everybody order).countP (·.living) := by
    rw [← sum_counts]
    show (((s.details order).map s.ecosystemEntry).map (·.living)).sum = _
    rw [List.map_map]
    rfl
  rw [hcount, countP_everybody h]
  exact List.countP_congr fun m hm => by rw [living_memberNode h hm]

theorem vitals_deceased (h : s.Inv) : (s.cityEcosystem order).2.deceased = s.listed.countP (·.dead) := by
  have hcount : (s.cityEcosystem order).2.deceased = (s.everybody order).countP (·.deceased) := by
    rw [← sum_counts]
    show (((s.details order).map s.ecosystemEntry).map (·.deceased)).sum = _
    rw [List.map_map]
    rfl
  rw [hcount, countP_everybody h]
  rfl

theorem familyCount_eq (h : s.Tables) : (s.snapshotView order).familyCount = s.listRecent.length := by
  show (s.details order).length = _
  rw [details_eq h, List.length_map]

/-- How many listed families live in a district. -/
def Store.settled (s : Store) (district : CityDistrict) : ℕ := s.listRecent.countP (·.defaultDistrict = district)

/-- The loop over the districts counts them. -/
theorem districts_foldl (l : List FamilyDetail) (b v r o : ℕ) :
    l.foldl (fun byDistrict d => Py.setItem byDistrict d.defaultDistrict.name
        ((Py.getItem byDistrict d.defaultDistrict.name).getD 0 + 1))
      [("build", b), ("viz", v), ("research", r), ("ops", o)] =
      [("build", b + l.countP (·.defaultDistrict = .build)), ("viz", v + l.countP (·.defaultDistrict = .viz)),
        ("research", r + l.countP (·.defaultDistrict = .research)), ("ops", o + l.countP (·.defaultDistrict = .ops))] := by
  induction l generalizing b v r o with
  | nil => rfl
  | cons d l ih =>
      rw [List.foldl_cons]
      cases hd : d.defaultDistrict with
      | build => exact (ih (b + 1) v r o).trans (by simp [hd]; omega)
      | viz => exact (ih b (v + 1) r o).trans (by simp [hd]; omega)
      | research => exact (ih b v (r + 1) o).trans (by simp [hd]; omega)
      | ops => exact (ih b v r (o + 1)).trans (by simp [hd]; omega)

theorem districts_eq (h : s.Tables) : (s.snapshotView order).districts =
    [("build", s.settled .build), ("viz", s.settled .viz), ("research", s.settled .research), ("ops", s.settled .ops)] := by
  have hcount (district : CityDistrict) :
      (s.details order).countP (·.defaultDistrict = district) = s.settled district := by
    rw [details_eq h, List.countP_map]
    rfl
  refine (districts_foldl (s.details order) 0 0 0 0).trans ?_
  simp only [hcount, Nat.zero_add]

/-- **A listed family has somebody alive**, so the city is alive exactly if it has a family. -/
theorem vitals_living_pos_iff (h : s.Inv) (order : List MemberId) :
    0 < (s.cityEcosystem order).2.living ↔ 0 < s.listRecent.length := by
  rw [vitals_living h, List.countP_pos_iff]
  constructor
  · rintro ⟨m, hm, -⟩
    obtain ⟨-, f, hf, -⟩ := mem_listed.mp hm
    exact List.length_pos_of_mem hf
  · intro hpos
    obtain ⟨f, hf⟩ := List.exists_mem_of_length_pos hpos
    have hone := h.ancestry.one_parent f (mem_of_mem_listRecent hf)
    obtain ⟨m, hm⟩ := List.exists_mem_of_length_pos (hone ▸ Nat.one_pos)
    obtain ⟨hrow, hliving⟩ := List.mem_filter.mp hm
    obtain ⟨hmem, hfam⟩ := mem_membersOf.mp (List.mem_filter.mp hrow).1
    have hlisted : m ∈ s.listed := mem_listed.mpr ⟨hmem, f, hf, hfam.symm⟩
    refine ⟨m, hlisted, ?_⟩
    rw [← living_memberNode h hlisted]
    exact (serializeMember_living m).trans hliving

/-! ## Generations -/

theorem retouches_lineage (h : s.Retouches t) : t.lineage = s.lineage := by
  obtain ⟨f, hmembers, hf⟩ := h.members
  unfold lineage
  rw [hmembers, List.map_map]
  refine List.map_congr_left fun m _ => ?_
  show (f m).kin = m.kin
  rw [hf m]
  rfl

/-- **Every call** leaves the generations of the families without a gap. -/
theorem call_gapless (hs : s.Inv) (hgapless : Lineage.Gapless s.lineage) {c : Call} (h : s.call tiers c = some t) :
    Lineage.Gapless t.lineage := by
  cases c with
  | createFamily req now =>
      obtain ⟨⟨id, t'⟩, hcreate, rfl⟩ := Option.map_eq_some_iff.mp h
      obtain ⟨r, f, m, hhires, -, -, -, hkin, rfl⟩ := createFamily_spec hcreate
      rw [lineage_createMember, hkin]
      refine Lineage.Gapless.snoc ?_ (.inl rfl)
      exact hhires.lineage ▸ hgapless
  | spawnChild req =>
      obtain ⟨⟨child, t'⟩, hspawn, rfl⟩ := Option.map_eq_some_iff.mp h
      obtain ⟨r, parent, child, hhires, hparent, -, -, hkin, rfl⟩ := spawnChild_spec hspawn
      rw [lineage_createMember, hkin, hhires.lineage]
      exact hgapless.snoc (.inr ⟨parent.kin, kin_mem_lineage hparent, rfl, rfl⟩)
  | updateFamilyPolicy id patch now => exact retouches_lineage (updateFamilyPolicy_retouches h) ▸ hgapless
  | updateMemberLife id goals dreams structuredThinking =>
      exact retouches_lineage (updateMemberLife_retouches h) ▸ hgapless
  | lifeTick req =>
      obtain ⟨⟨proof, t'⟩, htick, rfl⟩ := Option.map_eq_some_iff.mp h
      refine lifeTick_invariant (P := fun u => Lineage.Gapless u.lineage) ?_ ?_ hs hgapless htick
      · intro u family forceAge _ hu
        rw [retouches_lineage ageFamily_retouches]
        exact hu
      · intro u v p q m family hinv hu hm _ hfam hpass
        obtain ⟨k, i, -, -, -, hlineage⟩ := passOn_lineage hpass hinv hm hfam
        rw [hlineage]
        exact hu.succeed (kin_mem_lineage hm)
  | work jobs =>
      obtain rfl := Option.some.inj h
      exact hgapless

theorem gapless_of_reachable (h : (system tiers).Reachable s) : Lineage.Gapless s.lineage := by
  have hboth : s.Inv ∧ Lineage.Gapless s.lineage := by
    refine h.invariant (I := fun u => u.Inv ∧ Lineage.Gapless u.lineage) (fun u hu => ⟨inv_of_founding hu, ?_⟩)
      fun u c v hu _ hcall => ⟨call_inv hu.1 hcall, call_gapless hu.1 hu.2 hcall⟩
    intro k hk
    rw [lineage, hu.members] at hk
    cases hk
  exact hboth.2

theorem foldl_max_le_iff (xs : List ℕ) (n g : ℕ) : g ≤ xs.foldl max n ↔ g ≤ n ∨ ∃ x ∈ xs, g ≤ x := by
  induction xs generalizing n with
  | nil => simp
  | cons x xs ih =>
      rw [List.foldl_cons, ih, le_max_iff, List.exists_mem_cons_iff, or_assoc]

theorem le_maxOr0_iff {xs : List ℕ} {g : ℕ} : g ≤ maxOr0 xs ↔ g = 0 ∨ ∃ x ∈ xs, g ≤ x := by
  rw [maxOr0, foldl_max_le_iff, Nat.le_zero]

/-- The maximum over the families is the one over everybody. -/
theorem le_generationMax_iff (h : s.Inv) {g : ℕ} : g ≤ (s.cityEcosystem order).2.generationMax ↔
    g = 0 ∨ ∃ m ∈ s.listed, g ≤ m.generation := by
  show g ≤ maxOr0 (((s.details order).map s.ecosystemEntry).map (·.generationMax)) ↔ _
  rw [le_maxOr0_iff, List.map_map]
  have hall : (∃ n ∈ s.everybody order, g ≤ n.generation) ↔ ∃ m ∈ s.listed, g ≤ m.generation := by
    rw [everybody_eq h.tables]
    constructor
    · rintro ⟨n, hn, hg⟩
      obtain ⟨m, hm, rfl⟩ := List.mem_map.mp hn
      exact ⟨m, (exported_perm h _).mem_iff.mp hm, hg⟩
    · rintro ⟨m, hm, hg⟩
      exact ⟨_, List.mem_map_of_mem ((exported_perm h _).mem_iff.mpr hm), hg⟩
  rw [← hall]
  constructor
  · rintro (hzero | ⟨x, hx, hgx⟩)
    · exact .inl hzero
    · obtain ⟨d, hd, rfl⟩ := List.mem_map.mp hx
      refine (le_maxOr0_iff.mp hgx).imp_right ?_
      rintro ⟨y, hy, hgy⟩
      obtain ⟨n, hn, rfl⟩ := List.mem_map.mp hy
      exact ⟨n, List.mem_flatMap.mpr ⟨d, hd, hn⟩, hgy⟩
  · rintro (hzero | ⟨n, hn, hgn⟩)
    · exact .inl hzero
    · obtain ⟨d, hd, hn⟩ := List.mem_flatMap.mp hn
      refine .inr ⟨_, List.mem_map.mpr ⟨d, hd, rfl⟩, ?_⟩
      exact le_maxOr0_iff.mpr (.inr ⟨_, List.mem_map.mpr ⟨n, hn, rfl⟩, hgn⟩)

/-- **A generation is there** from the first to the last. -/
theorem exists_generation_iff (h : s.Inv) (hgapless : Lineage.Gapless s.lineage) (hpos : 0 < s.listRecent.length) {g : ℕ} :
    (∃ m ∈ s.listed, m.generation = g) ↔ g ≤ (s.cityEcosystem order).2.generationMax := by
  -- whoever is of a later generation has relatives of every earlier one
  have hdown {m : FamilyMemberModel} (hm : m ∈ s.listed) (hg : g ≤ m.generation) :
      ∃ m ∈ s.listed, m.generation = g := by
    obtain ⟨k, hk, hfam, hgen⟩ := hgapless.exists_generation (kin_mem_lineage (mem_listed.mp hm).1) hg
    obtain ⟨m', hm', rfl⟩ := List.mem_map.mp hk
    exact ⟨m', mem_listed_of_family hm hm' hfam, hgen⟩
  rw [le_generationMax_iff h]
  constructor
  · rintro ⟨m, hm, rfl⟩
    exact .inr ⟨m, hm, le_rfl⟩
  · rintro (rfl | ⟨m, hm, hg⟩)
    · have hliving := (vitals_living_pos_iff h order).mpr hpos
      rw [vitals_living h, List.countP_pos_iff] at hliving
      obtain ⟨m, hm, -⟩ := hliving
      exact hdown hm (Nat.zero_le _)
    · exact hdown hm hg

/-! ## The cohorts -/

theorem foldl_add (l : List MemberNode) (b : Cohort) :
    (l.foldl Cohort.add b).generation = b.generation ∧
      (l.foldl Cohort.add b).living = b.living + l.countP (!·.deceased) ∧
      (l.foldl Cohort.add b).deceased = b.deceased + l.countP (·.deceased) ∧
      (l.foldl Cohort.add b).members = b.members + l.length := by
  induction l generalizing b with
  | nil => exact ⟨rfl, rfl, rfl, rfl⟩
  | cons n l ih =>
      obtain ⟨hgeneration, hliving, hdeceased, hmembers⟩ := ih (b.add n)
      rw [List.foldl_cons, hgeneration, hliving, hdeceased, hmembers]
      cases hn : n.deceased <;> simp [Cohort.add, hn] <;> omega

/-- How many of a generation live. -/
def Store.aliveOf (s : Store) (g : ℕ) : ℕ := s.listed.countP fun m => decide (m.generation = g) && !m.dead

/-- How many of a generation are dead. -/
def Store.deadOf (s : Store) (g : ℕ) : ℕ := s.listed.countP fun m => decide (m.generation = g) && m.dead

/-- **The row of a generation** counts those of the generation. -/
theorem cohort_row (h : s.Inv) {e : ℕ × Cohort} (he : e ∈ s.cohorts order) :
    e.2.row.generation = e.1 ∧ e.2.row.living = s.aliveOf e.1 ∧ e.2.row.deceased = s.deadOf e.1 ∧
      e.2.row.members = s.aliveOf e.1 + s.deadOf e.1 := by
  have hget := Py.getItem_of_mem Tally.keys_tally he
  rw [Tally.getItem_tally] at hget
  split at hget
  · obtain ⟨hgeneration, hliving, hdeceased, hmembers⟩ := foldl_add
      ((s.everybody order).filter (·.generation = e.1)) { generation := e.1 }
    have hcount (p : MemberNode → Bool) : ((s.everybody order).filter (·.generation = e.1)).countP p =
        s.listed.countP fun m => decide (m.generation = e.1) && p (memberNode m) := by
      rw [List.countP_filter, countP_everybody h]
      refine List.countP_congr fun m _ => ?_
      rw [Bool.and_comm]
      rfl
    have hall := List.length_eq_countP_add_countP (fun n : MemberNode => n.deceased)
      (l := (s.everybody order).filter (·.generation = e.1))
    rw [← Option.some.inj hget]
    refine ⟨hgeneration, ?_, ?_, ?_⟩
    · exact hliving.trans ((Nat.zero_add _).trans (hcount _))
    · exact hdeceased.trans ((Nat.zero_add _).trans (hcount _))
    · refine hmembers.trans ((Nat.zero_add _).trans (hall.trans ?_))
      rw [Nat.add_comm]
      refine congrArg₂ (· + ·) ?_ (hcount _)
      exact (List.countP_congr fun n _ => by simp).trans (hcount (!·.deceased))
  · cases hget

/-- The generations come in order, each once. -/
theorem cohort_keys (order : List MemberId) :
    ((Select.orderBy Prod.fst (s.cohorts order)).map Prod.fst).Pairwise (· < ·) := by
  have hnodup : ((Select.orderBy Prod.fst (s.cohorts order)).map Prod.fst).Nodup :=
    ((Select.orderBy_perm _ _).map _).nodup_iff.mpr Tally.keys_tally
  rw [List.Nodup, List.pairwise_map] at hnodup
  rw [List.pairwise_map]
  exact (Select.orderBy_pairwise _ _).imp₂ (fun _ _ hle hne => lt_of_le_of_ne hle hne) hnodup

/-- How many generations there are. -/
def Store.generationCount (s : Store) (order : List MemberId) : ℕ :=
  if (s.snapshotView order).familyCount = 0 then 0 else (s.cityEcosystem order).2.generationMax + 1

theorem mem_cohort_keys (h : s.Inv) {g : ℕ} :
    g ∈ (s.cohorts order).map Prod.fst ↔ ∃ m ∈ s.listed, m.generation = g := by
  rw [cohorts, Tally.mem_keys_tally, everybody_eq h.tables, List.map_map, List.mem_map]
  simp only [(exported_perm h _).mem_iff]
  rfl

theorem cohort_keys_eq (h : s.Inv) (hgapless : Lineage.Gapless s.lineage) :
    (Select.orderBy Prod.fst (s.cohorts order)).map Prod.fst = List.range (s.generationCount order) := by
  have hmem (g : ℕ) : g ∈ (Select.orderBy Prod.fst (s.cohorts order)).map Prod.fst ↔
      g ∈ List.range (s.generationCount order) := by
    rw [((Select.orderBy_perm _ _).map _).mem_iff, mem_cohort_keys h, List.mem_range, generationCount,
      familyCount_eq h.tables]
    split
    · next hnone =>
        refine iff_of_false ?_ (Nat.not_lt_zero _)
        rintro ⟨m, hm, -⟩
        obtain ⟨-, f, hf, -⟩ := mem_listed.mp hm
        exact (List.length_pos_of_mem hf).ne' hnone
    · next hsome => rw [exists_generation_iff h hgapless (Nat.pos_of_ne_zero hsome), Nat.lt_succ_iff]
  have hperm := (List.perm_ext_iff_of_nodup ((cohort_keys order).imp fun hlt => hlt.ne) List.nodup_range).mpr hmem
  exact hperm.eq_of_pairwise (fun a b _ _ hab hba => absurd hab hba.not_gt) (cohort_keys order) List.pairwise_lt_range

/-! ## The dead and their heirs -/

theorem listed_nodup (h : s.Inv) : (s.listed.map (·.id)).Nodup := by
  have hids : (s.members.map (·.id)).Nodup := List.pairwise_map.mpr (h.ancestry.in_order.imp fun hlt => hlt.ne)
  exact hids.sublist (List.filter_sublist.map _)

/-- Who succeeds somebody belongs to the same family. -/
theorem successor_family (h : s.Inv) {h' : FamilyMemberModel} (hm : m ∈ s.members) (hh : h' ∈ s.members)
    (hsucc : h'.successorOfId = some m.id) : h'.familyId = m.familyId ∧ h'.generation = m.generation + 1 := by
  obtain ⟨p, hp, hid, hfam, -, hgen⟩ := h.ancestry.predecessor_earlier h' hh m.id hsucc
  obtain rfl := mem_members_unique h hp hm hid
  exact ⟨hfam.symm, hgen⟩

/-- The living have no heir and the dead have one. -/
theorem countP_heirs (h : s.Inv) (hm : m ∈ s.listed) :
    s.listed.countP (fun h => decide (h.successorOfId = some m.id)) = if m.dead then 1 else 0 := by
  have hmem := (mem_listed.mp hm).1
  have hall : s.listed.countP (fun h => decide (h.successorOfId = some m.id)) =
      (s.members.filter (·.successorOfId = some m.id)).length := by
    unfold listed
    rw [List.countP_filter, ← List.countP_eq_length_filter]
    refine List.countP_congr fun h' hh => ?_
    have hlisted (hsucc : h'.successorOfId = some m.id) : ∃ f ∈ s.listRecent, f.id = h'.familyId :=
      (mem_listed.mp (mem_listed_of_family hm hh (successor_family h hmem hh hsucc).1)).2
    simpa using hlisted
  rw [hall]
  cases hstatus : m.lifeStatus with
  | alive =>
      have hnone := h.ancestry.no_successor m hmem hstatus
      rw [List.filter_eq_nil_iff.mpr fun h' hh => by simpa using hnone h' hh]
      simp [FamilyMemberModel.dead, hstatus]
  | deceased =>
      rw [h.ancestry.one_successor m hmem hstatus]
      simp [FamilyMemberModel.dead, hstatus]

/-- An heir succeeds one of the listed, the others nobody. -/
theorem countP_predecessors (h : s.Inv) (hm : m ∈ s.listed) :
    s.listed.countP (fun p => decide (m.successorOfId = some p.id)) = if m.successorOfId.isSome then 1 else 0 := by
  cases hsucc : m.successorOfId with
  | none => simp
  | some i =>
      obtain ⟨p, hp, rfl, hfam, -⟩ := h.ancestry.predecessor_earlier m (mem_listed.mp hm).1 i hsucc
      have hone := List.count_eq_one_of_mem (listed_nodup h)
        (List.mem_map_of_mem (f := (·.id)) (mem_listed_of_family hm hp hfam))
      rw [List.count, List.countP_map] at hone
      refine (List.countP_congr fun q _ => ?_).trans hone
      show decide (some p.id = some q.id) = true ↔ (q.id == p.id) = true
      rw [decide_eq_true_iff, Option.some.injEq, beq_iff_eq, eq_comm]

/-- Every heir is the end of an edge. -/
theorem edges_eq (h : s.Inv) : (s.generationReport order).legacyEdges = s.listed.countP (·.successorOfId.isSome) :=
  countP_everybody h (·.successorOfId.isSome)

/-- **As many legacies as dead**: counted by the heirs and by those they succeed. -/
theorem legacyEdges_eq (h : s.Inv) : (s.generationReport order).legacyEdges = s.listed.countP (·.dead) := by
  have hpairs := Tally.sum_countP_comm
    (fun (heir m : FamilyMemberModel) => decide (heir.successorOfId = some m.id)) s.listed s.listed
  rw [edges_eq h, Tally.countP_eq_sum, Tally.countP_eq_sum, ← List.map_congr_left fun m hm => countP_predecessors h hm,
    hpairs, List.map_congr_left fun m hm => countP_heirs h hm]

/-- **Every one of the dead has one heir**, of the same family and a generation later. -/
theorem exists_heir (h : s.Inv) (hm : m ∈ s.listed) (hdead : m.dead) :
    ∃ heir, s.listed.filter (·.successorOfId = some m.id) = [heir] ∧ heir.familyId = m.familyId ∧
      heir.generation = m.generation + 1 := by
  have hcount := countP_heirs h hm
  rw [if_pos hdead, List.countP_eq_length_filter] at hcount
  obtain ⟨heir, hone⟩ := List.length_eq_one_iff.mp hcount
  have hheir : heir ∈ s.listed.filter (·.successorOfId = some m.id) := hone ▸ List.mem_singleton_self heir
  obtain ⟨hheir, hsucc⟩ := List.mem_filter.mp hheir
  exact ⟨heir, hone, successor_family h (mem_listed.mp hm).1 (mem_listed.mp hheir).1 (of_decide_eq_true hsucc)⟩

/-- **The heir of one of the dead**, as the family shows it. -/
theorem heir_spec (h : s.Inv) (hm : m ∈ s.listed) (hdead : m.dead) (order : List MemberId) :
    ∃ heir ∈ s.listed, heir.successorOfId = some m.id ∧ heir.generation = m.generation + 1 ∧
      (s.rowsOf order m.familyId).filter (·.successorOfId = some m.id) = [heir] := by
  have hmem := (mem_listed.mp hm).1
  obtain ⟨heir, hone⟩ := List.length_eq_one_iff.mp (h.ancestry.one_successor m hmem (of_decide_eq_true hdead))
  have hheir : heir ∈ s.members.filter (·.successorOfId = some m.id) := hone ▸ List.mem_singleton_self heir
  obtain ⟨hheir, hsucc⟩ := List.mem_filter.mp hheir
  obtain ⟨hfam, hgen⟩ := successor_family h hmem hheir (of_decide_eq_true hsucc)
  refine ⟨heir, mem_listed_of_family hm hheir hfam, of_decide_eq_true hsucc, hgen, List.perm_singleton.mp ?_⟩
  rw [← hone]
  refine ((Select.orderBy_perm _ _).filter _).trans (List.Perm.of_eq ?_)
  unfold membersOf
  rw [List.filter_filter]
  refine List.filter_congr fun h' hh => ?_
  have hsame (hsucc : h'.successorOfId = some m.id) := (successor_family h hmem hh hsucc).1
  simpa using hsame

/-! ## The memorial -/

/-- The entries of a family. -/
def FamilyDetail.entries (d : FamilyDetail) : List MemorialEntry := d.dead.map (memorialEntry d)

theorem appendUntil_eq {α : Type*} {limit : ℕ} (cs entries : List α) (hlt : entries.length < limit) :
    appendUntil limit entries cs = (entries ++ cs).take limit := by
  induction cs generalizing entries with
  | nil => rw [List.append_nil, List.take_of_length_le hlt.le, appendUntil]
  | cons c cs ih =>
      rw [List.append_cons entries c cs]
      show (if (limit : ℤ) ≤ (entries ++ [c]).length then entries ++ [c] else appendUntil limit (entries ++ [c]) cs) = _
      split
      · next hfull =>
          have hlength : (entries ++ [c]).length = limit := by
            simp at hfull ⊢
            omega
          rw [← hlength, List.take_left]
      · next hroom => exact ih _ (by omega)

/-- **The roll** is what is at the front of all entries. -/
theorem memorialRoll_eq {limit : ℕ} (ds : List FamilyDetail) (entries : List MemorialEntry)
    (hlt : entries.length < limit) :
    memorialRoll limit entries ds = (entries ++ ds.flatMap (·.entries)).take limit := by
  induction ds generalizing entries with
  | nil => rw [List.flatMap_nil, List.append_nil, List.take_of_length_le hlt.le, memorialRoll]
  | cons d ds ih =>
      rw [memorialRoll, List.flatMap_cons, ← List.append_assoc, appendUntil_eq _ _ hlt]
      change (if (limit : ℤ) ≤ ((entries ++ d.entries).take limit).length then (entries ++ d.entries).take limit
        else memorialRoll limit ((entries ++ d.entries).take limit) ds) = _
      by_cases hfull : limit ≤ (entries ++ d.entries).length
      · rw [if_pos (by rw [List.length_take_of_le hfull]), List.take_append_of_le_length hfull]
      · have hall : (entries ++ d.entries).take limit = entries ++ d.entries := List.take_of_length_le (by omega)
        rw [hall, if_neg (by omega)]
        exact ih _ (by omega)

/-- How many entries the memorial has room for. -/
def roomFor (limit : ℤ) : ℕ := (min (max limit 1) 500).toNat

theorem memorial_eq (limit : ℤ) :
    s.memorial order limit = ((s.details order).flatMap (·.entries)).take (roomFor limit) := by
  have hroom : min (max limit 1) 500 = (roomFor limit : ℤ) := by
    unfold roomFor
    omega
  have hpos : 0 < roomFor limit := by
    unfold roomFor
    omega
  rw [memorial, hroom, memorialRoll_eq _ [] hpos, List.nil_append]

/-- **Who is remembered**: the dead of the listed families, as far as there is room. -/
theorem memorial_ids (h : s.Inv) (limit : ℤ) : (s.memorial order limit).map (·.memberId) =
    (s.listRecent.flatMap fun f => ((s.rowsOf order f.id).filter (·.dead)).map (·.id)).take (roomFor limit) := by
  rw [memorial_eq, List.map_take, List.map_flatMap, details_eq h.tables, List.flatMap_map]
  congr 1
  refine List.flatMap_congr fun f _ => ?_
  show (((((s.rowsOf order f.id).map memberNode).filter (·.deceased)).map _).map _) = _
  rw [List.filter_map, List.map_map, List.map_map]
  rfl

/-- **Every entry names the heir.** -/
theorem memorial_heirs (h : s.Inv) {limit : ℤ} {e : MemorialEntry} (he : e ∈ s.memorial order limit) :
    ∃ m ∈ s.listed, m.dead ∧ e.memberId = m.id ∧ ∃ heir ∈ s.listed, heir.successorOfId = some m.id ∧
      heir.generation = m.generation + 1 ∧ e.heirs = [⟨heir.id, some heir.agentId, heir.generation, heir.lifeStatus⟩] := by
  rw [memorial_eq] at he
  obtain ⟨d, hd, he⟩ := List.mem_flatMap.mp (List.mem_of_mem_take he)
  rw [details_eq h.tables] at hd
  obtain ⟨f, hf, rfl⟩ := List.mem_map.mp hd
  obtain ⟨n, hn, rfl⟩ := List.mem_map.mp he
  obtain ⟨hn, hdead⟩ := List.mem_filter.mp hn
  obtain ⟨m, hm, rfl⟩ := List.mem_map.mp hn
  obtain ⟨hmem, hfam⟩ := mem_membersOf.mp (mem_rowsOf.mp hm)
  have hlisted : m ∈ s.listed := mem_listed.mpr ⟨hmem, f, hf, hfam.symm⟩
  obtain ⟨heir, hheir, hsucc, hgen, hone⟩ := heir_spec h hlisted hdead order
  refine ⟨m, hlisted, hdead, rfl, heir, hheir, hsucc, hgen, ?_⟩
  show (((s.rowsOf order f.id).map memberNode).filter (·.successorOfId = some m.id)).map _ = _
  rw [List.filter_map, List.map_map, ← hfam]
  exact congrArg (List.map _) hone

/-! ## A tick -/

theorem listRecent_congr (h : t.families = s.families) : t.listRecent = s.listRecent := by
  unfold listRecent
  rw [h]

/-- Edits of rows change nobody's family. -/
theorem listed_length_map {f : FamilyMemberModel → FamilyMemberModel} (hfamilies : t.families = s.families)
    (hmembers : t.members = s.members.map f) (hf : ∀ m, (f m).familyId = m.familyId) :
    t.listed.length = s.listed.length := by
  unfold listed
  rw [listRecent_congr hfamilies, hmembers, List.filter_map, List.length_map]
  simp only [Function.comp_def, hf]

/-- A new member of a listed family. -/
theorem listed_length_createMember {g : FamilyModel} (hg : g ∈ s.listRecent) (hfam : m.familyId = g.id) :
    (s.createMember m).2.listed.length = s.listed.length + 1 := by
  have hnew : decide (∃ f ∈ s.listRecent, f.id = m.familyId) = true := decide_eq_true ⟨g, hg, hfam.symm⟩
  show (List.filter (fun m => decide (∃ f ∈ s.listRecent, f.id = m.familyId)) (s.members ++ [_])).length = _
  rw [List.filter_append, List.length_append, List.filter_cons_of_pos (by exact hnew)]
  rfl

/-- **A tick brings as many members as it reports births**, all of them in listed families. -/
theorem lifeTick_listed {req : TickRequest} {q : LifeProof} (hs : s.Inv) (h : lifeTick tiers s req = some (q, t)) :
    t.listRecent = s.listRecent ∧ t.listed.length = s.listed.length + q.born := by
  have hend := lifeTick_rule (P := fun _ w => w.2.families = s.families ∧
    w.2.listed.length = s.listed.length + w.1.born) ?_ hs h ⟨rfl, rfl⟩
  · exact ⟨listRecent_congr hend.2.1, hend.2.2⟩
  · rintro f rest p q u v hu hsuffix - ⟨hfamilies, hlength⟩ htick
    have hf : f ∈ s.listRecent := by
      have hmem : f ∈ s.tickFamilies req := hsuffix.subset (List.mem_cons_self ..)
      unfold tickFamilies at hmem
      split at hmem
      · exact hmem
      · exact List.mem_of_mem_take hmem
    have hfamily := tickFamily_rule (P := fun _ w => w.2.families = s.families ∧
      w.2.listed.length = s.listed.length + w.1.born) ?_ hu htick ⟨hfamilies, ?_⟩
    · exact hfamily.2
    · rintro m rest p q w x hw hm - hfam ⟨hfamilies, hlength⟩ hpass
      obtain ⟨r, parent, heir, -, hhires, -, -, hkin, rfl, -, hborn⟩ := passOn_spec hpass hfam
      have hheir : heir.familyId = f.id := (congrArg Lineage.Kin.family hkin).trans hfam
      have hlisted : f ∈ r.listRecent := listRecent_congr (hhires.families.trans hfamilies) ▸ hf
      have hburied : r.listed.length = w.listed.length := by
        refine listed_length_map hhires.families hhires.members fun m' => ?_
        split <;> rfl
      refine ⟨hhires.families.trans hfamilies, ?_⟩
      show (r.createMember heir).2.listed.length = s.listed.length + q.born
      rw [listed_length_createMember hlisted hheir, hburied, hlength, hborn]
      exact Nat.add_assoc ..
    · have hage : (u.ageFamily f req.forceAge).listed.length = u.listed.length := by
        refine listed_length_map rfl rfl fun m => ?_
        split <;> rfl
      exact hage.trans hlength

/-- Living in the listed families. -/
theorem countP_living (hs : s.Inv) :
    s.listed.countP (!·.dead) = (s.listRecent.map fun f => (s.livingOf f.id).length).sum := by
  have hperm : s.listed.countP (!·.dead) = (s.exported []).countP (!·.dead) := ((exported_perm hs _).countP_eq _).symm
  rw [hperm, exported, List.countP_flatMap]
  refine congrArg List.sum (List.map_congr_left fun f _ => ?_)
  rw [Function.comp_apply, rowsOf, (Select.orderBy_perm _ _).countP_eq, livingOf, ← List.countP_eq_length_filter]
  refine List.countP_congr fun m hm => ?_
  rw [(hs.tables.vital m (mem_membersOf.mp hm).1).living]
  show (!decide (m.lifeStatus = .deceased)) = true ↔ decide (m.lifeStatus = .alive) = true
  cases m.lifeStatus <;> simp

/-! ## The census -/

/-- **The views agree** with the listed members, and so with each other. -/
structure Store.Census (s : Store) (order : List MemberId) : Prop where
  agentCount : (s.snapshotView order).agentCount = s.listed.length
  living : (s.cityEcosystem order).2.living = s.listed.countP (!·.dead)
  deceased : (s.cityEcosystem order).2.deceased = s.listed.countP (·.dead)
  split : (s.snapshotView order).agentCount =
    (s.cityEcosystem order).2.living + (s.cityEcosystem order).2.deceased
  districts : (s.snapshotView order).districts =
    [("build", s.settled .build), ("viz", s.settled .viz), ("research", s.settled .research), ("ops", s.settled .ops)]
  generations : (s.generationReport order).generations.map (fun r => (r.generation, r.living, r.deceased, r.members)) =
    (List.range (s.generationCount order)).map fun g => (g, s.aliveOf g, s.deadOf g, s.aliveOf g + s.deadOf g)
  edges : (s.generationReport order).legacyEdges = s.listed.countP (·.successorOfId.isSome)
  edge : ∀ m ∈ s.listed, m.dead → ∃ heir, s.listed.filter (·.successorOfId = some m.id) = [heir] ∧
    heir.familyId = m.familyId ∧ heir.generation = m.generation + 1
  legacyEdges : (s.generationReport order).legacyEdges = (s.cityEcosystem order).2.deceased
  memorial_ids : ∀ limit, (s.memorial order limit).map (·.memberId) =
    (s.listRecent.flatMap fun f => ((s.rowsOf order f.id).filter (·.dead)).map (·.id)).take (roomFor limit)
  memorial_length : ∀ limit, (s.memorial order limit).length = min (roomFor limit) (s.cityEcosystem order).2.deceased
  heirs : ∀ limit, ∀ e ∈ s.memorial order limit, ∃ m ∈ s.listed, m.dead ∧ e.memberId = m.id ∧
    ∃ heir ∈ s.listed, heir.successorOfId = some m.id ∧ heir.generation = m.generation + 1 ∧
      e.heirs = [⟨heir.id, some heir.agentId, heir.generation, heir.lifeStatus⟩]
  heartbeat : (s.heartbeat order).1 = true ↔ 0 < (s.snapshotView order).familyCount
  status : s.healthStatus order = "alive" ↔ 0 < (s.snapshotView order).familyCount

/-- Everybody is alive or dead. -/
theorem length_listed : s.listed.length = s.listed.countP (!·.dead) + s.listed.countP (·.dead) := by
  rw [List.length_eq_countP_add_countP (·.dead), Nat.add_comm]
  refine congrArg (· + _) (List.countP_congr fun m _ => ?_)
  simp

theorem alive_iff (h : s.Inv) : (s.heartbeat order).1 = true ↔ 0 < (s.snapshotView order).familyCount := by
  rw [familyCount_eq h.tables, ← vitals_living_pos_iff h order]
  have hpos := vitals_living_pos_iff h order
  show decide (0 < numOr (s.cityEcosystem order).2.living (s.snapshotView order).agentCount) = true ↔ _
  rw [decide_eq_true_iff, numOr]
  split
  · next hzero =>
      -- nobody is alive, so there is no family and nobody at all
      rw [agentCount_eq h]
      refine iff_of_false (fun hsome => ?_) (by omega)
      obtain ⟨m, hm⟩ := List.exists_mem_of_length_pos hsome
      obtain ⟨-, f, hf, -⟩ := mem_listed.mp hm
      have := hpos.mpr (List.length_pos_of_mem hf)
      omega
  · exact Iff.rfl

theorem status_iff (h : s.Inv) : s.healthStatus order = "alive" ↔ 0 < (s.snapshotView order).familyCount := by
  rw [familyCount_eq h.tables, ← vitals_living_pos_iff h order, healthStatus]
  split
  · next hpos => exact iff_of_true rfl hpos
  · next hzero => exact iff_of_false (by decide) hzero

theorem census_of_inv (h : s.Inv) (hgapless : Lineage.Gapless s.lineage) (order : List MemberId) :
    s.Census order where
  agentCount := agentCount_eq h
  living := vitals_living h
  deceased := vitals_deceased h
  split := by rw [agentCount_eq h, vitals_living h, vitals_deceased h, length_listed]
  districts := districts_eq h.tables
  generations := by
    rw [← cohort_keys_eq h hgapless, List.map_map]
    show ((Select.orderBy Prod.fst (s.cohorts order)).map fun e => e.2.row).map _ = _
    rw [List.map_map]
    refine List.map_congr_left fun e he => ?_
    obtain ⟨hgeneration, hliving, hdeceased, hmembers⟩ := cohort_row h (Select.mem_orderBy.mp he)
    simp only [Function.comp_apply, hgeneration, hliving, hdeceased, hmembers]
  edges := edges_eq h
  edge := fun m hm hdead => exists_heir h hm hdead
  legacyEdges := (legacyEdges_eq h).trans (vitals_deceased h).symm
  memorial_ids := memorial_ids h
  memorial_length := by
    intro limit
    have hdead : (s.listRecent.flatMap fun f => ((s.rowsOf order f.id).filter (·.dead)).map (·.id)).length =
        s.listed.countP (·.dead) := by
      rw [← (exported_perm h order).countP_eq, exported, ← List.map_flatMap, ← List.filter_flatMap, List.length_map,
        List.countP_eq_length_filter]
    rw [← List.length_map (·.memberId), memorial_ids h, List.length_take, hdead, vitals_deceased h]
  heirs := fun limit e he => memorial_heirs h he
  heartbeat := alive_iff h
  status := status_iff h

/-- **In every reachable city the views agree**, whatever order the rows come in, and a tick that completes adds as many
dead as it reports, with an heir for each, so that as many live as before. -/
theorem census (h : (system tiers).Reachable s) (order : List MemberId) :
    s.Census order ∧ ∀ req proof t, lifeTick tiers s req = some (proof, t) → t.Census order ∧
      (t.cityEcosystem order).2.living = (s.cityEcosystem order).2.living ∧
      (t.cityEcosystem order).2.deceased = (s.cityEcosystem order).2.deceased + proof.died ∧
      (t.generationReport order).legacyEdges = (s.generationReport order).legacyEdges + proof.born := by
  have hs := inv_of_reachable h
  have hcensus := census_of_inv hs (gapless_of_reachable h) order
  refine ⟨hcensus, fun req proof t htick => ?_⟩
  have hcall : (system tiers).step s (.lifeTick req) = some t := by
    show (lifeTick tiers s req).map Prod.snd = some t
    rw [htick]
    rfl
  have hreached : (system tiers).Reachable t := Runs.System.Reach.tail h trivial hcall
  obtain ⟨ht, hcount, -, -, hsame⟩ := lifeTick_spec htick hs
  obtain ⟨hlist, hlength⟩ := lifeTick_listed hs htick
  have hcensus' := census_of_inv ht (gapless_of_reachable hreached) order
  have hliving : (t.cityEcosystem order).2.living = (s.cityEcosystem order).2.living := by
    rw [hcensus'.living, hcensus.living, countP_living ht, countP_living hs, hlist]
    exact congrArg List.sum (List.map_congr_left fun f _ => hsame f.id)
  have hdeceased : (t.cityEcosystem order).2.deceased = (s.cityEcosystem order).2.deceased + proof.died := by
    have hold := hcensus.split
    have hnew := hcensus'.split
    rw [hcensus.agentCount] at hold
    rw [hcensus'.agentCount] at hnew
    omega
  refine ⟨hcensus', hliving, hdeceased, ?_⟩
  rw [hcensus'.legacyEdges, hcensus.legacyEdges, hdeceased, hcount]

/-- Two families, a child in one of them, and two ticks in which the child and then its parent die. -/
def censusCalls : List Call :=
  [.createFamily { name := "Moss", policy := { maxAgeTicks := some (some 2) } } 1,
   .createFamily { name := "Fen", defaultDistrict := "ops" } 2,
   .spawnChild { familyId := 2, name := "Fern", roleLabel := some "executor" },
   .lifeTick { now := 3 }, .lifeTick { now := 4, order := [9, 3] }]

theorem census_twoFamilies : ∃ s, (system ⟨"large", "small"⟩).exec emptyCity censusCalls = some s ∧
    (s.snapshotView []).agentCount = 5 ∧
    (s.generationReport []).generations.map (fun r => (r.generation, r.living, r.deceased)) =
      [(0, 1, 1), (1, 1, 1), (2, 1, 0)] ∧
    s.Census [] ∧ ∀ req proof t, lifeTick ⟨"large", "small"⟩ s req = some (proof, t) → t.Census [] ∧
      (t.cityEcosystem []).2.living = (s.cityEcosystem []).2.living ∧
      (t.cityEcosystem []).2.deceased = (s.cityEcosystem []).2.deceased + proof.died ∧
      (t.generationReport []).legacyEdges = (s.generationReport []).legacyEdges + proof.born := by
  have hex : ((system ⟨"large", "small"⟩).exec emptyCity censusCalls).any (fun s =>
      decide ((s.snapshotView []).agentCount = 5 ∧
        (s.generationReport []).generations.map (fun r => (r.generation, r.living, r.deceased)) =
          [(0, 1, 1), (1, 1, 1), (2, 1, 0)])) = true := by
    decide +kernel
  obtain ⟨s, hrun, hshown⟩ := Runs.System.exists_of_exec hex
  obtain ⟨hagents, hrows⟩ := of_decide_eq_true hshown
  exact ⟨s, hrun, hagents, hrows, census (Runs.System.reachable_of_exec init_emptyCity hrun) []⟩

end Persola.City
