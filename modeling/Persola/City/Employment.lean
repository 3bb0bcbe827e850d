import Persola.City.Succession

/-!
# `City.Employment` — whether the agents of the living are active

A death switches the agent of the member off, whoever else has that agent: `create_family` takes any agent as a
founder, one that has died or one that is a member elsewhere. Who lives and which agents are active is read off
the tables by `Employs` and `Active`; a tick takes its dead and their agents out of both (`lifeTick_settles`).
So the living have active agents throughout a run exactly when families are given active agents only and no
tick kills one of two members that share an agent (`employed_throughout_iff`).
-/

namespace Persola.City

open Agent (AgentId AgentModel)
open Store

variable {tiers : ModelTier} {s r t : Store} {m : FamilyMemberModel} {family : FamilyModel}
  {now : Time} {p q : LifeProof} {req : TickRequest} {i : MemberId} {a : AgentId}

namespace Store

/-- The member `i` is living, and `a` is its agent. -/
def Employs (s : Store) (i : MemberId) (a : AgentId) : Prop :=
  ∃ m ∈ s.members, m.id = i ∧ m.agentId = a ∧ m.living = true

/-- The agent is there and active. -/
def Active (s : Store) (a : AgentId) : Prop := ∃ agent, s.getAgent a = some agent ∧ agent.isActive = true

/-- **The agent of every living member is active.** -/
def Employed (s : Store) : Prop := ∀ m ∈ s.members, m.living = true → s.Active m.agentId

theorem employed_iff : s.Employed ↔ ∀ i a, s.Employs i a → s.Active a := by
  constructor
  · rintro h i a ⟨m, hm, -, rfl, hliving⟩
    exact h m hm hliving
  · intro h m hm hliving
    exact h m.id m.agentId ⟨m, hm, rfl, rfl, hliving⟩

theorem Employs.congr (h : t.members = s.members) : t.Employs i a ↔ s.Employs i a := by
  unfold Employs
  rw [h]

theorem Active.congr (h : t.agents = s.agents) : t.Active a ↔ s.Active a := by
  unfold Active getAgent
  rw [h]

/-- Edits of member rows that leave alone whose they are and whether they live. -/
theorem employs_map {f : FamilyMemberModel → FamilyMemberModel}
    (hf : ∀ m, (f m).id = m.id ∧ (f m).agentId = m.agentId ∧ (f m).living = m.living) :
    ({ s with members := s.members.map f } : Store).Employs i a ↔ s.Employs i a := by
  constructor
  · rintro ⟨m', hm', hid, hagent, hliving⟩
    obtain ⟨m, hm, rfl⟩ := List.mem_map.mp hm'
    obtain ⟨hid', hagent', hliving'⟩ := hf m
    exact ⟨m, hm, hid'.symm.trans hid, hagent'.symm.trans hagent, hliving'.symm.trans hliving⟩
  · rintro ⟨m, hm, hid, hagent, hliving⟩
    obtain ⟨hid', hagent', hliving'⟩ := hf m
    exact ⟨f m, List.mem_map_of_mem hm, hid'.trans hid, hagent'.trans hagent, hliving'.trans hliving⟩

theorem Retouches.employs (h : s.Retouches t) : t.Employs i a ↔ s.Employs i a := by
  obtain ⟨f, hmembers, hf⟩ := h.members
  refine (Employs.congr hmembers).trans (employs_map (s := s) (f := f) fun m => ?_)
  rw [hf m]
  exact ⟨rfl, rfl, rfl⟩

/-- Edits of rows keep everybody employed. -/
theorem Retouches.employed (h : s.Retouches t) (hemployed : s.Employed) : t.Employed := by
  rw [employed_iff] at hemployed ⊢
  exact fun i a hi => (Active.congr h.agents).mpr (hemployed i a (h.employs.mp hi))

/-- The agents of members have ids in use. -/
theorem Employs.lt (hs : s.Tables) (h : s.Employs i a) : a < s.fresh := by
  obtain ⟨m, hm, -, rfl, -⟩ := h
  obtain ⟨agent, hagent⟩ := Option.isSome_iff_exists.mp (hs.hired m hm)
  have hlt := hs.agent_lt agent (List.mem_of_find?_eq_some hagent)
  rwa [getAgent_id hagent] at hlt

/-! ## Deaths -/

/-- Between `s` and `t` the members in `dead` died and their agents were switched off. Whoever is new has an
active agent. -/
structure Settles (dead : List FamilyMemberModel) (s t : Store) : Prop where
  fresh_le : s.fresh ≤ t.fresh
  employs : ∀ i a, a < s.fresh → (t.Employs i a ↔ s.Employs i a ∧ ∀ d ∈ dead, d.id ≠ i)
  active : ∀ a, a < s.fresh → (t.Active a ↔ s.Active a ∧ ∀ d ∈ dead, d.agentId ≠ a)
  hired : ∀ i a, s.fresh ≤ a → t.Employs i a → t.Active a

theorem Settles.refl (hs : s.Tables) : Settles [] s s where
  fresh_le := le_rfl
  employs := by simp
  active := by simp
  hired := fun _ _ ha h => absurd (h.lt hs) ha.not_gt

/-- Deaths one after the other, of members that were there before the first. -/
theorem Settles.trans {dead dead' : List FamilyMemberModel} (h : Settles dead s r) (h' : Settles dead' r t)
    (hdead : ∀ d ∈ dead', d.agentId < s.fresh) : Settles (dead ++ dead') s t where
  fresh_le := h.fresh_le.trans h'.fresh_le
  employs := by
    intro i a ha
    rw [h'.employs i a (ha.trans_le h.fresh_le), h.employs i a ha, and_assoc, List.forall_mem_append]
  active := by
    intro a ha
    rw [h'.active a (ha.trans_le h.fresh_le), h.active a ha, and_assoc, List.forall_mem_append]
  hired := by
    intro i a ha hemploys
    by_cases hr : a < r.fresh
    · have hbefore := ((h'.employs i a hr).mp hemploys).1
      rw [h'.active a hr]
      exact ⟨h.hired i a ha hbefore, fun d hd heq => absurd (heq ▸ hdead d hd) ha.not_gt⟩
    · exact h'.hired i a (not_lt.mp hr) hemploys

/-- **What the deaths leave**: the living have active agents iff nobody who lives on shares one with the dead. -/
theorem Settles.employed_iff {dead : List FamilyMemberModel} (h : Settles dead s t) (hs : s.Tables)
    (hemployed : s.Employed) :
    t.Employed ↔ ∀ m ∈ s.members, m.living = true → (∃ d ∈ dead, d.agentId = m.agentId) →
      ∃ d ∈ dead, d.id = m.id := by
  rw [Store.employed_iff] at hemployed ⊢
  constructor
  · rintro hall m hm hliving ⟨d, hd, hagent⟩
    by_contra hnone
    push Not at hnone
    have hemploys : s.Employs m.id m.agentId := ⟨m, hm, rfl, rfl, hliving⟩
    have hlt := hemploys.lt hs
    have hactive := hall m.id m.agentId ((h.employs _ _ hlt).mpr ⟨hemploys, hnone⟩)
    exact ((h.active _ hlt).mp hactive).2 d hd hagent
  · intro hspared i a hemploys
    by_cases hlt : a < s.fresh
    · obtain ⟨hbefore, hlives⟩ := (h.employs i a hlt).mp hemploys
      refine (h.active a hlt).mpr ⟨hemployed i a hbefore, fun d hd hagent => ?_⟩
      obtain ⟨m, hm, rfl, rfl, hliving⟩ := hbefore
      obtain ⟨d', hd', hid⟩ := hspared m hm hliving ⟨d, hd, hagent⟩
      exact hlives d' hd' hid
    · exact h.hired i a (not_lt.mp hlt) hemploys

theorem employs_bury : (s.bury m now).Employs i a ↔ s.Employs i a ∧ m.id ≠ i := by
  constructor
  · rintro ⟨m', hm', hid, hagent, hliving⟩
    obtain ⟨m₀, hm₀, rfl⟩ := List.mem_map.mp hm'
    split at hliving
    · cases hliving
    · next hne =>
        rw [if_neg hne] at hid hagent
        exact ⟨⟨m₀, hm₀, hid, hagent, hliving⟩, fun heq => hne (hid.trans heq.symm)⟩
  · rintro ⟨⟨m₀, hm₀, hid, hagent, hliving⟩, hne⟩
    refine ⟨m₀, List.mem_map.mpr ⟨m₀, hm₀, if_neg fun heq => hne (heq.symm.trans hid)⟩, hid, hagent, hliving⟩

theorem active_bury : (s.bury m now).Active a ↔ s.Active a ∧ m.agentId ≠ a := by
  have hget : (s.bury m now).getAgent a =
      (s.getAgent a).map fun b => if a = m.agentId then { b with isActive := false } else b :=
    Table.find?_modify fun _ => rfl
  unfold Active
  rw [hget]
  constructor
  · rintro ⟨agent, hagent, hactive⟩
    obtain ⟨b, hb, rfl⟩ := Option.map_eq_some_iff.mp hagent
    split at hactive
    · cases hactive
    · next hne => exact ⟨⟨b, hb, hactive⟩, fun heq => hne heq.symm⟩
  · rintro ⟨⟨b, hb, hactive⟩, hne⟩
    rw [hb, Option.map_some, if_neg (Ne.symm hne)]
    exact ⟨b, rfl, hactive⟩

end Store

namespace Store

theorem bury_settles (hs : s.Tables) : Settles [m] s (s.bury m now) where
  fresh_le := le_rfl
  employs := by
    intro i a _
    rw [employs_bury, List.forall_mem_singleton]
  active := by
    intro a _
    rw [active_bury, List.forall_mem_singleton]
  hired := fun _ _ ha h => absurd ((employs_bury.mp h).1.lt hs) ha.not_gt

/-! ## New members -/

/-- `t` is `s` with a new agent, and a new member that has it. -/
structure Recruits (s t : Store) (agent : AgentModel) (row : FamilyMemberModel) : Prop where
  agents : t.agents = s.agents ++ [agent]
  members : t.members = s.members ++ [row]
  fresh_le : s.fresh ≤ t.fresh
  agent_new : s.fresh ≤ agent.id
  active : agent.isActive = true
  has : row.agentId = agent.id

variable {agent : AgentModel} {row : FamilyMemberModel}

theorem Recruits.employs_iff (h : s.Recruits t agent row) :
    t.Employs i a ↔ s.Employs i a ∨ row.id = i ∧ agent.id = a ∧ row.living = true := by
  unfold Employs
  rw [h.members, ← h.has]
  constructor
  · rintro ⟨m, hm, hid, hagent, hliving⟩
    rcases List.mem_append.mp hm with hold | hnew
    · exact .inl ⟨m, hold, hid, hagent, hliving⟩
    · obtain rfl := List.mem_singleton.mp hnew
      exact .inr ⟨hid, hagent, hliving⟩
  · rintro (⟨m, hm, hid, hagent, hliving⟩ | ⟨hid, hagent, hliving⟩)
    · exact ⟨m, List.mem_append_left _ hm, hid, hagent, hliving⟩
    · exact ⟨row, List.mem_append_right _ (List.mem_singleton_self _), hid, hagent, hliving⟩

/-- A new agent is newer than those of the members. -/
theorem Recruits.agent_gt (h : s.Recruits t agent row) (hs : s.Tables) (hm : m ∈ s.members) :
    m.agentId < row.agentId := by
  obtain ⟨a, ha⟩ := Option.isSome_iff_exists.mp (hs.hired m hm)
  have hlt : a.id < s.fresh := hs.agent_lt a (List.mem_of_find?_eq_some ha)
  rw [getAgent_id ha] at hlt
  rw [h.has]
  exact hlt.trans_le h.agent_new

/-- A new agent leaves the others as they are. -/
theorem Recruits.active_iff (h : s.Recruits t agent row) (ha : a < s.fresh) : t.Active a ↔ s.Active a := by
  have hne : ¬ agent.id = a := fun heq => (ha.trans_le h.agent_new).ne heq.symm
  have hget : t.getAgent a = s.getAgent a := by
    unfold getAgent
    rw [h.agents, List.find?_append]
    simp [hne]
  unfold Active
  rw [hget]

/-- It is active itself. -/
theorem Recruits.active_new (h : s.Recruits t agent row) (hs : s.Tables) : t.Active agent.id := by
  have hnone : s.agents.find? (fun x => x.id = agent.id) = none := by
    refine List.find?_eq_none.mpr fun x hx => ?_
    simpa using ((hs.agent_lt x hx).trans_le h.agent_new).ne
  refine ⟨agent, ?_, h.active⟩
  unfold getAgent
  rw [h.agents, List.find?_append, hnone]
  simp

theorem Recruits.settles (h : s.Recruits t agent row) (hs : s.Tables) : Settles [] s t where
  fresh_le := h.fresh_le
  employs := by
    intro i a ha
    rw [h.employs_iff]
    constructor
    · rintro (hold | ⟨-, rfl, -⟩)
      · exact ⟨hold, fun d hd => absurd hd List.not_mem_nil⟩
      · exact absurd h.agent_new ha.not_ge
    · exact fun hold => .inl hold.1
  active := by
    intro a ha
    rw [h.active_iff ha]
    exact (and_iff_left fun d hd => absurd hd List.not_mem_nil).symm
  hired := by
    intro i a ha hemploys
    rcases h.employs_iff.mp hemploys with hold | ⟨-, rfl, -⟩
    · exact absurd (hold.lt hs) ha.not_gt
    · exact h.active_new hs

end Store

section
variable {agent : AgentModel} {row : FamilyMemberModel}

theorem succeedMember_recruits {heir : FamilyMemberModel}
    (h : s.succeedMember tiers m family = some (heir, t)) : ∃ agent row, s.Recruits t agent row := by
  obtain ⟨parent, -, h⟩ := Option.bind_eq_some_iff.mp h
  obtain ⟨profile, -, h⟩ := Option.bind_eq_some_iff.mp h
  obtain ⟨-, rfl⟩ := Prod.mk.inj (Option.some.inj h)
  exact ⟨_, _, rfl, rfl, (Nat.le_succ _).trans ((Nat.le_succ _).trans (Nat.le_succ _)), Nat.le_succ _, rfl, rfl⟩

theorem spawnChild_recruits {req : SpawnChild} (h : spawnChild tiers s req = some (m, t)) :
    ∃ agent row, s.Recruits t agent row := by
  obtain ⟨family, -, h⟩ := Option.bind_eq_some_iff.mp h
  obtain ⟨parent, -, h⟩ := Option.bind_eq_some_iff.mp h
  obtain ⟨parentAgent, -, h⟩ := Option.bind_eq_some_iff.mp h
  obtain ⟨profile, -, h⟩ := Option.bind_eq_some_iff.mp h
  obtain ⟨-, rfl⟩ := Prod.mk.inj (Option.some.inj h)
  exact ⟨_, _, rfl, rfl, (Nat.le_succ _).trans ((Nat.le_succ _).trans (Nat.le_succ _)), Nat.le_succ _, rfl, rfl⟩

/-- A death: the member is buried, and its heir recruited. -/
theorem passOn_recruits (h : passOn tiers family now (p, s) m = some (q, t)) :
    ∃ agent row, (s.bury m now).Recruits t agent row := by
  obtain ⟨⟨heir, u⟩, hsucceed, h⟩ := Option.bind_eq_some_iff.mp h
  obtain ⟨-, rfl⟩ := Prod.mk.inj (Option.some.inj h)
  exact succeedMember_recruits hsucceed

/-- **One death.** -/
theorem passOn_settles (hs : s.Tables) (h : passOn tiers family now (p, s) m = some (q, t)) :
    Settles [m] s t := by
  obtain ⟨agent, row, hrecruits⟩ := passOn_recruits h
  have hbury : (s.bury m now).Tables := die_hires.tables (tables_die hs m.id)
  exact (bury_settles hs).trans (hrecruits.settles hbury) fun d hd => absurd hd List.not_mem_nil

/-! ## A tick -/

theorem ageFamily_settles (hs : s.Tables) {forceAge : ℤ} : Settles [] s (s.ageFamily family forceAge) := by
  have hemploys : ∀ i a, (s.ageFamily family forceAge).Employs i a ↔ s.Employs i a :=
    fun _ _ => ageFamily_retouches.employs
  constructor
  · exact le_rfl
  · intro i a _
    rw [hemploys]
    exact (and_iff_left fun d hd => absurd hd List.not_mem_nil).symm
  · intro a _
    exact (and_iff_left fun d hd => absurd hd List.not_mem_nil).symm
  · intro i a ha h
    exact absurd (((hemploys i a).mp h).lt hs) ha.not_gt

/-- Who dies was there before. -/
theorem mem_deaths (hm : m ∈ s.deaths family req) :
    ∃ m₀ ∈ s.members, m₀.id = m.id ∧ m₀.agentId = m.agentId ∧ m₀.living = true := by
  obtain ⟨m₀, hm₀, rfl⟩ := List.mem_map.mp hm
  obtain ⟨hrow, hdue⟩ := List.mem_filter.mp hm₀
  obtain ⟨hmem, -⟩ := mem_membersOf.mp (Select.mem_orderBy.mp hrow)
  exact ⟨m₀, hmem, rfl, rfl, (Bool.and_eq_true_iff.mp hdue).1⟩

theorem deaths_agent_lt (hs : s.Tables) (hm : m ∈ s.deaths family req) : m.agentId < s.fresh := by
  obtain ⟨m₀, hmem, hid, hagent, hliving⟩ := mem_deaths hm
  have hemploys : s.Employs m.id m.agentId := ⟨m₀, hmem, hid, hagent, hliving⟩
  exact hemploys.lt hs

/-- **One family of a tick.** -/
theorem tickFamily_settles (hs : s.Inv) (h : tickFamily tiers req (p, s) family = some (q, t)) :
    Settles (s.deaths family req) s t := by
  have hend := tickFamily_rule
    (P := fun rest u => ∃ done, s.deaths family req = done ++ rest ∧ Settles done s u.2) ?_ hs h
    ⟨[], rfl, ageFamily_settles hs.tables⟩
  · obtain ⟨-, done, hdone, hsettles⟩ := hend
    rw [hdone, List.append_nil]
    exact hsettles
  · rintro m rest p q u v hinv - - - ⟨done, hdone, hsettles⟩ hpass
    refine ⟨done ++ [m], ?_, ?_⟩
    · rw [hdone, List.append_assoc, List.singleton_append]
    · refine hsettles.trans (passOn_settles hinv.tables hpass) fun d hd => ?_
      obtain rfl := List.mem_singleton.mp hd
      have hmem : d ∈ s.deaths family req := by
        rw [hdone]
        exact List.mem_append_right _ (List.mem_cons_self ..)
      exact deaths_agent_lt hs.tables hmem

/-- The members a tick kills. -/
def Store.dying (s : Store) (req : TickRequest) : List FamilyMemberModel :=
  (s.tickFamilies req).flatMap fun family => s.deaths family req

/-- **A tick** takes its dead out of the living, and their agents out of the active ones. -/
theorem lifeTick_settles (hs : s.Inv) (h : lifeTick tiers s req = some (q, t)) :
    Settles (s.dying req) s t := by
  have hend := lifeTick_rule
    (P := fun rest u => ∃ done, s.dying req = done ++ (rest.flatMap fun f => s.deaths f req) ∧
      Settles done s u.2) ?_ hs h ⟨[], rfl, .refl hs.tables⟩
  · obtain ⟨-, done, hdone, hsettles⟩ := hend
    rw [hdone, List.flatMap_nil, List.append_nil]
    exact hsettles
  · rintro f rest p q u v hinv - hsame ⟨done, hdone, hsettles⟩ htick
    refine ⟨done ++ s.deaths f req, ?_, ?_⟩
    · rw [hdone, List.flatMap_cons, List.append_assoc]
    · have hfamily := tickFamily_settles hinv htick
      rw [deaths_congr hsame] at hfamily
      exact hsettles.trans hfamily fun d hd => deaths_agent_lt hs.tables hd

/-! ## The other calls -/

/-- A family is founded with a new agent, or with the one it is given. -/
theorem createFamily_cases {req : CreateFamily} {id : FamilyId} (h : createFamily tiers s req now = some (id, t)) :
    req.parentAgentId = none ∧ (∃ agent row, s.Recruits t agent row) ∨
    ∃ a row, req.parentAgentId = some a ∧ t.agents = s.agents ∧ t.members = s.members ++ [row] ∧
      row.agentId = a ∧ row.living = true ∧ row.familyId = s.fresh ∧ row.parentMemberId = none ∧
      row.successorOfId = none := by
  obtain ⟨district, -, h⟩ := Option.bind_eq_some_iff.mp h
  obtain ⟨⟨founder, r⟩, hfounder, h⟩ := Option.bind_eq_some_iff.mp h
  obtain ⟨maxAgeTicks, -, h⟩ := Option.bind_eq_some_iff.mp h
  obtain ⟨-, rfl⟩ := Prod.mk.inj (Option.some.inj h)
  unfold parentAgent at hfounder
  split at hfounder
  · next a hsome =>
      obtain ⟨agent, hagent, hfounder⟩ := Option.bind_eq_some_iff.mp hfounder
      obtain ⟨rfl, rfl⟩ := Prod.mk.inj (Option.some.inj hfounder)
      exact .inr ⟨a, _, hsome, rfl, rfl, getAgent_id hagent, rfl, rfl, rfl, rfl⟩
  · next hnone =>
      obtain ⟨⟨persona, u⟩, hpersona, hfounder⟩ := Option.bind_eq_some_iff.mp hfounder
      obtain ⟨profile, -, hfounder⟩ := Option.bind_eq_some_iff.mp hfounder
      obtain ⟨rfl, rfl⟩ := Prod.mk.inj (Option.some.inj hfounder)
      -- the persona of the founder leaves agents and members alone
      have hu : u.agents = s.agents ∧ u.members = s.members ∧ s.fresh ≤ u.fresh := by
        unfold parentPersona at hpersona
        split at hpersona
        · obtain ⟨-, rfl⟩ := Prod.mk.inj (Option.some.inj hpersona)
          exact ⟨rfl, rfl, Nat.le_succ _⟩
        · obtain ⟨persona, -, hpersona⟩ := Option.bind_eq_some_iff.mp hpersona
          obtain ⟨-, rfl⟩ := Prod.mk.inj (Option.some.inj hpersona)
          exact ⟨rfl, rfl, le_rfl⟩
      refine .inl ⟨hnone, _, _, congrArg (· ++ _) hu.1, congrArg (· ++ _) hu.2.1, ?_, hu.2.2, rfl, rfl⟩
      show s.fresh ≤ u.fresh + 1 + 1 + 1
      omega

/-- **Invariants of a call**: edits of rows, burials and recruits keep it, and so does a founder with the agent
that the call gives it. -/
theorem call_invariant {P : Store → Prop} {c : Call}
    (hretouch : ∀ {u v : Store}, u.Retouches v → P u → P v)
    (hbury : ∀ {u : Store} {m : FamilyMemberModel} {now : Time}, P u → P (u.bury m now))
    (hrecruit : ∀ {u v : Store} {agent : AgentModel} {row : FamilyMemberModel}, u.Tables → v.Inv →
      u.Recruits v agent row → P u → P v)
    (hgiven : ∀ {req : CreateFamily} {now : Time} {row : FamilyMemberModel}, c = .createFamily req now →
      req.parentAgentId = some row.agentId → t.members = s.members ++ [row] → row.familyId = s.fresh →
      row.parentMemberId = none → row.successorOfId = none → P t)
    (hs : s.Inv) (hP : P s) (h : s.call tiers c = some t) : P t := by
  have ht := call_inv hs h
  cases c with
  | createFamily req now =>
      obtain ⟨⟨id, t'⟩, hcreate, rfl⟩ := Option.map_eq_some_iff.mp h
      rcases createFamily_cases hcreate with
        ⟨-, agent, row, hrecruits⟩ | ⟨a, row, hsome, -, hmembers, rfl, -, hfam, hparent, hheir⟩
      · exact hrecruit hs.tables ht hrecruits hP
      · exact hgiven rfl hsome hmembers hfam hparent hheir
  | spawnChild req =>
      obtain ⟨⟨child, t'⟩, hspawn, rfl⟩ := Option.map_eq_some_iff.mp h
      obtain ⟨agent, row, hrecruits⟩ := spawnChild_recruits hspawn
      exact hrecruit hs.tables ht hrecruits hP
  | updateFamilyPolicy id patch now => exact hretouch (updateFamilyPolicy_retouches h) hP
  | updateMemberLife id goals dreams structuredThinking => exact hretouch (updateMemberLife_retouches h) hP
  | lifeTick req =>
      obtain ⟨⟨proof, t'⟩, htick, rfl⟩ := Option.map_eq_some_iff.mp h
      refine lifeTick_invariant (fun _ hu => hretouch ageFamily_retouches hu) ?_ hs hP htick
      intro u v p q m family hinv hu hm hliving hfam hpass
      obtain ⟨agent, row, hrecruits⟩ := passOn_recruits hpass
      exact hrecruit (die_hires.tables (tables_die hinv.tables m.id)) (passOn_inv hpass hinv hm hliving hfam)
        hrecruits (hbury hu)
  | work jobs =>
      obtain rfl := Option.some.inj h
      have hwork : s.Retouches { s with jobs } := ⟨rfl, id, (List.map_id _).symm, fun _ => rfl⟩
      exact hretouch hwork hP

theorem Store.Recruits.employed (h : s.Recruits t agent row) (hs : s.Tables) (hemployed : s.Employed) :
    t.Employed := by
  refine ((h.settles hs).employed_iff hs hemployed).mpr ?_
  rintro m hm hliving ⟨d, hd, -⟩
  exact absurd hd List.not_mem_nil

/-- A founder given keeps its agent in the state it is in. -/
theorem employed_append_iff (hemployed : s.Employed) (hagents : t.agents = s.agents)
    (hmembers : t.members = s.members ++ [row]) (hliving : row.living = true) :
    t.Employed ↔ s.Active row.agentId := by
  unfold Employed
  simp only [Active.congr hagents, hmembers, List.forall_mem_append, List.forall_mem_singleton]
  constructor
  · rintro ⟨-, hrow⟩
    exact hrow hliving
  · intro hrow
    exact ⟨hemployed, fun _ => hrow⟩

end

instance (s : Store) (a : AgentId) : Decidable (s.Active a) :=
  decidable_of_iff ((s.getAgent a).any (·.isActive) = true) (Option.any_eq_true ..)

/-- A family is given an active agent only; and a member whose agent is also the agent of one that a tick
kills dies in that tick as well. -/
def sparesAgents (s : Store) : Call → Prop
  | .createFamily req _ => ∀ a ∈ req.parentAgentId, s.Active a
  | .lifeTick req => ∀ m ∈ s.members, m.living = true →
      (∃ d ∈ s.dying req, d.agentId = m.agentId) → ∃ d ∈ s.dying req, d.id = m.id
  | _ => True

instance (s : Store) (c : Call) : Decidable (sparesAgents s c) :=
  match c with
  | .createFamily req _ => inferInstanceAs (Decidable (∀ a ∈ req.parentAgentId, s.Active a))
  | .lifeTick req => inferInstanceAs (Decidable (∀ m ∈ s.members, m.living = true →
      (∃ d ∈ s.dying req, d.agentId = m.agentId) → ∃ d ∈ s.dying req, d.id = m.id))
  | .spawnChild _ => inferInstanceAs (Decidable True)
  | .updateFamilyPolicy _ _ _ => inferInstanceAs (Decidable True)
  | .updateMemberLife _ _ _ _ => inferInstanceAs (Decidable True)
  | .work _ => inferInstanceAs (Decidable True)

/-- **One call** keeps the agents of the living active exactly when it meets the condition. -/
theorem employed_step_iff (hs : s.Inv) (hemployed : s.Employed) {c : Call} (h : s.call tiers c = some t) :
    t.Employed ↔ sparesAgents s c := by
  cases c with
  | createFamily req now =>
      obtain ⟨⟨id, t'⟩, hcreate, rfl⟩ := Option.map_eq_some_iff.mp h
      rcases createFamily_cases hcreate with
        ⟨hnone, agent, row, hrecruits⟩ | ⟨a, row, hsome, hagents, hmembers, rfl, hliving, -⟩
      · refine iff_of_true (hrecruits.employed hs.tables hemployed) fun a ha => ?_
        rw [hnone] at ha
        cases ha
      · rw [employed_append_iff hemployed hagents hmembers hliving]
        show _ ↔ ∀ a ∈ req.parentAgentId, s.Active a
        rw [hsome]
        simp
  | spawnChild req =>
      obtain ⟨⟨child, t'⟩, hspawn, rfl⟩ := Option.map_eq_some_iff.mp h
      obtain ⟨agent, row, hrecruits⟩ := spawnChild_recruits hspawn
      exact iff_of_true (hrecruits.employed hs.tables hemployed) trivial
  | updateFamilyPolicy id patch now =>
      exact iff_of_true ((updateFamilyPolicy_retouches h).employed hemployed) trivial
  | updateMemberLife id goals dreams structuredThinking =>
      exact iff_of_true ((updateMemberLife_retouches h).employed hemployed) trivial
  | lifeTick req =>
      obtain ⟨⟨proof, t'⟩, htick, rfl⟩ := Option.map_eq_some_iff.mp h
      exact (lifeTick_settles hs htick).employed_iff hs.tables hemployed
  | work jobs =>
      obtain rfl := Option.some.inj h
      exact iff_of_true hemployed trivial

/-- **The agent of every living member is active after every call of a run exactly when families are given
active agents only and no tick kills one of two members that share an agent.** -/
theorem employed_throughout_iff {s₀ : Store} {calls : List Call} (h₀ : (system tiers).init s₀)
    (h : (system tiers).exec s₀ calls = some s) :
    (system tiers).Throughout Store.Employed s₀ calls ↔ (system tiers).Meets sparesAgents s₀ calls := by
  have hstart : s₀.Employed := by
    intro m hm
    rw [h₀.members] at hm
    cases hm
  refine Runs.System.throughout_iff (fun u c v hinv hemployed hstep => ?_) (inv_of_founding h₀) hstart h
  exact ⟨call_inv hinv hstep, employed_step_iff hinv hemployed hstep⟩

/-- Two families share their founder, and live for one tick. -/
def twinFamilies : List Call :=
  [.createFamily { name := "Moss", policy := { maxAgeTicks := some (some 1) } } 1,
   .createFamily { name := "Fern", parentAgentId := some 1, policy := { maxAgeTicks := some (some 1) } } 2,
   .spawnChild { familyId := 4, name := "Ivy" }]

/-- Both founders die in the first tick, and the heirs have agents of their own. -/
theorem employed_twinFamilies : (system ⟨"large", "small"⟩).Throughout Store.Employed emptyCity
    (twinFamilies ++ [.lifeTick {}]) := by
  have hex : (((system ⟨"large", "small"⟩).exec emptyCity (twinFamilies ++ [.lifeTick {}])).any
      fun _ => true) = true := by
    decide +kernel
  obtain ⟨s, hrun, -⟩ := Runs.System.exists_of_exec hex
  exact (employed_throughout_iff init_emptyCity hrun).mpr (by decide +kernel)

/-- **Two families share a founder, and one of them outlives the other**: the founder of the second lives on
without an active agent. -/
theorem lifeTick_deactivates_living : ¬ ∀ tiers s₀ calls s, (system tiers).init s₀ →
    (system tiers).exec s₀ calls = some s → s.Employed := by
  intro hall
  have hex : (((system ⟨"large", "small"⟩).exec emptyCity
      [.createFamily { name := "Moss", policy := { maxAgeTicks := some (some 1) } } 1,
       .createFamily { name := "Fern", parentAgentId := some 1 } 2, .lifeTick {}]).any fun s =>
      s.members.any fun m => m.living && !decide (s.Active m.agentId)) = true := by
    decide +kernel
  obtain ⟨s, hrun, hm⟩ := Runs.System.exists_of_exec hex
  obtain ⟨m, hmem, hm⟩ := List.any_eq_true.mp hm
  obtain ⟨hliving, hinactive⟩ := Bool.and_eq_true_iff.mp hm
  have hactive := hall _ _ _ s init_emptyCity hrun m hmem hliving
  rw [decide_eq_true hactive] at hinactive
  cases hinactive

end Persola.City
