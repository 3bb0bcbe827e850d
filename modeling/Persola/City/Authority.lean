import Persola.City.Ancestry

/-!
# `City.Authority` — tool tags along lines of descent

`spawn_child` without `tool_tags` and `_succeed_member` hand the tags of the parent or predecessor on, but an
empty list counts as missing there and the default tags take its place (`tagsOrDefault`). Tags and line of
descent of a row never change, so the tags of every later generation are those of the first one unless that
one had none (`tags_inherited_iff`). Which children were spawned with tags of their own is no column of the
table; the tracked city remembers it.
-/

namespace Persola.City

open Agent (AgentId AgentModel)
open Store

variable {tiers : ModelTier} {s r t : Store} {m : FamilyMemberModel} {family : FamilyModel}
  {p q : LifeProof}

/-! ## Deeds -/

/-- What a row of `family_members` says about authority and its origin. -/
structure Deed where
  id : MemberId
  agentId : AgentId
  toolTags : List String
  parentMemberId : Option MemberId
  successorOfId : Option MemberId

def FamilyMemberModel.deed (m : FamilyMemberModel) : Deed :=
  ⟨m.id, m.agentId, m.toolTags, m.parentMemberId, m.successorOfId⟩

/-- `d` has its tags from `a`: it replaced `a`, or it was spawned under `a` and is none of the children in
    `own`, which were given tags of their own. -/
def Deed.HasFrom (own : List MemberId) (d a : Deed) : Prop :=
  d.successorOfId = some a.id ∨
    d.successorOfId = none ∧ d.parentMemberId = some a.id ∧ d.id ∉ own

namespace Store

def deeds (s : Store) : List Deed := s.members.map (·.deed)

/-- Every agent of `s` is there in `t`, with the same tools. -/
def KeepsTools (s t : Store) : Prop :=
  ∀ i a, s.getAgent i = some a → ∃ b, t.getAgent i = some b ∧ b.tools = a.tools

theorem KeepsTools.refl (s : Store) : s.KeepsTools s := fun _ a ha => ⟨a, ha, rfl⟩

theorem KeepsTools.trans (h : s.KeepsTools r) (h' : r.KeepsTools t) : s.KeepsTools t := by
  intro i a ha
  obtain ⟨b, hb, htools⟩ := h i a ha
  obtain ⟨c, hc, htools'⟩ := h' i b hb
  exact ⟨c, hc, htools'.trans htools⟩

/-- The agent of this row has exactly the tools of its tags. -/
def Equipped (s : Store) (d : Deed) : Prop :=
  (s.getAgent d.agentId).map (·.tools) = some (toolNamesForTags d.toolTags)

theorem Equipped.mono {d : Deed} (h : s.Equipped d) (hkeeps : s.KeepsTools t) : t.Equipped d := by
  obtain ⟨a, ha, htools⟩ := Option.map_eq_some_iff.mp h
  obtain ⟨b, hb, hsame⟩ := hkeeps _ a ha
  rw [Equipped, hb, Option.map_some, hsame, htools]

section Agents
variable {name model : String} {persona : Persona.PersonaId} {profile : Persona.PersonaProfile}
  {tools : List String}

theorem createAgent_keepsTools : s.KeepsTools (s.createAgent name model persona profile tools).2 := by
  intro i a ha
  refine ⟨a, ?_, rfl⟩
  have ha' : s.agents.find? (·.id = i) = some a := ha
  simp [createAgent, getAgent, List.find?_append, ha']

/-- The new agent is found under its id: no agent before it has that id. -/
theorem createAgent_tools (h : ∀ a ∈ s.agents, a.id < s.fresh) :
    ((s.createAgent name model persona profile tools).2.getAgent
      (s.createAgent name model persona profile tools).1.id).map (·.tools) = some tools := by
  have hnone : s.agents.find? (fun a => a.id = s.fresh) = none :=
    List.find?_eq_none.mpr fun a ha => by simpa using (h a ha).ne
  unfold createAgent getAgent
  rw [List.find?_append, hnone]
  simp

end Agents

theorem setAgent_keepsTools {id : AgentId} {f : AgentModel → AgentModel} (hid : ∀ a, (f a).id = a.id)
    (htools : ∀ a, (f a).tools = a.tools) : s.KeepsTools (s.setAgent id f) := by
  intro i a ha
  have hget : (s.setAgent id f).getAgent i = (s.getAgent i).map fun b => if i = id then f b else b :=
    Table.find?_modify hid
  rw [hget, ha]
  refine ⟨_, rfl, ?_⟩
  split
  · exact htools a
  · rfl

theorem deeds_createMember : (s.createMember m).2.deeds = s.deeds ++ [(s.createMember m).1.deed] := by
  simp [createMember, deeds]

/-- Edits of member rows that leave the deeds alone. -/
theorem deeds_map {f : FamilyMemberModel → FamilyMemberModel} (hf : ∀ m, (f m).deed = m.deed) :
    ({ s with members := s.members.map f } : Store).deeds = s.deeds := by
  simp [deeds, hf]

theorem Retouches.keepsTools (h : s.Retouches t) : s.KeepsTools t := by
  unfold KeepsTools getAgent
  rw [h.agents]
  exact KeepsTools.refl s

theorem Retouches.deeds (h : s.Retouches t) : t.deeds = s.deeds := by
  obtain ⟨f, hmembers, hf⟩ := h.members
  unfold Store.deeds
  rw [hmembers, List.map_map]
  refine List.map_congr_left fun m _ => ?_
  rw [Function.comp_apply, hf m]
  rfl

end Store

/-! ## What each call hands on -/

theorem parentAgent_keepsTools {req : CreateFamily} {overrides : KnobMap} {tags : List String}
    {a : AgentModel} (h : parentAgent tiers s req overrides tags = some (a, t)) :
    s.KeepsTools t ∧ t.members = s.members := by
  unfold parentAgent at h
  split at h
  · obtain ⟨agent, -, hrest⟩ := Option.bind_eq_some_iff.mp h
    obtain ⟨-, rfl⟩ := Prod.mk.inj (Option.some.inj hrest)
    exact ⟨.refl _, rfl⟩
  · obtain ⟨⟨persona, r⟩, hpersona, hrest⟩ := Option.bind_eq_some_iff.mp h
    obtain ⟨profile, -, hrest⟩ := Option.bind_eq_some_iff.mp hrest
    obtain ⟨rfl, rfl⟩ := Prod.mk.inj (Option.some.inj hrest)
    -- the persona of the parent leaves agents and members alone
    have hr : r.agents = s.agents ∧ r.members = s.members := by
      unfold parentPersona at hpersona
      split at hpersona
      · obtain ⟨-, rfl⟩ := Prod.mk.inj (Option.some.inj hpersona)
        exact ⟨rfl, rfl⟩
      · obtain ⟨persona, -, hrest⟩ := Option.bind_eq_some_iff.mp hpersona
        obtain ⟨-, rfl⟩ := Prod.mk.inj (Option.some.inj hrest)
        exact ⟨rfl, rfl⟩
    have hkeeps : s.KeepsTools (r.setPersona persona.id fun p =>
        { p with model := tiers.forRole "parent" req.roleLabel }) := by
      intro i a ha
      exact ⟨a, by simpa [getAgent, setPersona, hr.1] using ha, rfl⟩
    exact ⟨hkeeps.trans createAgent_keepsTools, hr.2⟩

/-- A founder comes from nobody. -/
theorem createFamily_deeds {req : CreateFamily} {now : Time} {id : FamilyId}
    (h : createFamily tiers s req now = some (id, t)) :
    s.KeepsTools t ∧ ∃ d : Deed, t.deeds = s.deeds ++ [d] ∧ d.parentMemberId = none ∧
      d.successorOfId = none := by
  obtain ⟨district, -, h⟩ := Option.bind_eq_some_iff.mp h
  obtain ⟨⟨agent, r⟩, hagent, h⟩ := Option.bind_eq_some_iff.mp h
  obtain ⟨maxAgeTicks, -, h⟩ := Option.bind_eq_some_iff.mp h
  obtain ⟨-, rfl⟩ := Prod.mk.inj (Option.some.inj h)
  obtain ⟨hkeeps, hmembers⟩ := parentAgent_keepsTools hagent
  have hdeeds : r.deeds = s.deeds := by rw [deeds, hmembers, deeds]
  refine ⟨hkeeps, _, deeds_createMember.trans (congrArg (· ++ _) hdeeds), ?_, ?_⟩
  · rfl
  · rfl

/-- A child has the tags it is given, else those of the member it is spawned under. -/
theorem spawnChild_deeds (hs : s.Inv) {req : SpawnChild} (h : spawnChild tiers s req = some (m, t)) :
    s.KeepsTools t ∧ t.deeds = s.deeds ++ [m.deed] ∧ t.Equipped m.deed ∧ m.successorOfId = none ∧
      ∃ parent ∈ s.members, m.parentMemberId = some parent.id ∧
        m.toolTags = req.toolTags.getD (tagsOrDefault parent.toolTags) := by
  obtain ⟨family, hfamily, h⟩ := Option.bind_eq_some_iff.mp h
  obtain ⟨parent, hparent, h⟩ := Option.bind_eq_some_iff.mp h
  obtain ⟨parentAgent, -, h⟩ := Option.bind_eq_some_iff.mp h
  obtain ⟨profile, -, h⟩ := Option.bind_eq_some_iff.mp h
  obtain ⟨rfl, rfl⟩ := Prod.mk.inj (Option.some.inj h)
  obtain ⟨hmem, -⟩ := spawnParent_mem hparent
  refine ⟨?_, deeds_createMember, ?_, rfl, parent, hmem, rfl, rfl⟩
  · exact fun i a ha => createAgent_keepsTools i a ha
  · exact createAgent_tools (createPersona_hires.agent_lt hs.tables.agent_lt)

/-- An heir has the tags of the member it replaces. -/
theorem passOn_deeds (hs : s.Inv) {now : Time}
    (h : passOn tiers family now (p, s) m = some (q, t)) :
    s.KeepsTools t ∧ ∃ heir : FamilyMemberModel, t.deeds = s.deeds ++ [heir.deed] ∧
      t.Equipped heir.deed ∧ heir.successorOfId = some m.id ∧
      heir.toolTags = tagsOrDefault m.toolTags := by
  obtain ⟨⟨heir, u⟩, hsucceed, h⟩ := Option.bind_eq_some_iff.mp h
  obtain ⟨rfl, rfl⟩ := Prod.mk.inj (Option.some.inj h)
  obtain ⟨parent, -, h⟩ := Option.bind_eq_some_iff.mp hsucceed
  obtain ⟨profile, -, h⟩ := Option.bind_eq_some_iff.mp h
  obtain ⟨rfl, rfl⟩ := Prod.mk.inj (Option.some.inj h)
  have hbury : s.KeepsTools (s.bury m now) :=
    setAgent_keepsTools (s := s.setMember m.id (·.die now)) (fun _ => rfl) (fun _ => rfl)
  have hdeeds : (s.bury m now).deeds = s.deeds := by
    refine deeds_map fun m' => ?_
    split <;> rfl
  have hlt : ∀ a ∈ (s.bury m now).agents, a.id < (s.bury m now).fresh :=
    die_hires.agent_lt (tables_die hs.tables m.id).agent_lt
  refine ⟨?_, _, deeds_createMember.trans (congrArg (· ++ _) hdeeds), ?_, ?_, ?_⟩
  · exact hbury.trans fun i b hb => createAgent_keepsTools i b hb
  · exact createAgent_tools (createPersona_hires.agent_lt hlt)
  · rfl
  · rfl

/-! ## The invariant -/

/-- Every row has the tags of the row it has them from, defaults taking the place of none, and everybody who
    comes from somebody is equipped with the tools of its tags. -/
structure Store.Authority (s : Store) (own : List MemberId) : Prop where
  inherited : ∀ a ∈ s.deeds, ∀ d ∈ s.deeds, d.HasFrom own a → d.toolTags = tagsOrDefault a.toolTags
  equipped : ∀ d ∈ s.deeds, d.parentMemberId.isSome ∨ d.successorOfId.isSome → s.Equipped d

section
variable {own own' : List MemberId}

/-- Parent and predecessor of a row are older than the row. -/
theorem Store.Inv.origin_lt (hs : s.Inv) {d : Deed} (hd : d ∈ s.deeds) {i : MemberId}
    (hi : d.parentMemberId = some i ∨ d.successorOfId = some i) : i < d.id := by
  obtain ⟨m, hm, rfl⟩ := List.mem_map.mp hd
  rcases hi with hi | hi
  · obtain ⟨p, -, rfl, -, hlt⟩ := hs.ancestry.parent_earlier m hm i hi
    exact hlt
  · obtain ⟨p, -, rfl, -, hlt, -⟩ := hs.ancestry.predecessor_earlier m hm i hi
    exact hlt

theorem Deed.HasFrom.origin {a d : Deed} (h : d.HasFrom own a) :
    d.parentMemberId = some a.id ∨ d.successorOfId = some a.id := by
  rcases h with h | ⟨-, h, -⟩
  · exact .inr h
  · exact .inl h

theorem Store.Authority.same (h : s.Authority own) (hdeeds : t.deeds = s.deeds)
    (hkeeps : s.KeepsTools t) : t.Authority own where
  inherited := by
    rw [hdeeds]
    exact h.inherited
  equipped := by
    rw [hdeeds]
    exact fun d hd hfrom => (h.equipped d hd hfrom).mono hkeeps

/-- **A new row** keeps the invariant if it has its tags from an older one and its agent is equipped. -/
theorem Store.Authority.append (h : s.Authority own) (ht : t.Inv) (hkeeps : s.KeepsTools t) {d : Deed}
    (hdeeds : t.deeds = s.deeds ++ [d]) (hown : own ⊆ own')
    (hfrom : ∀ a ∈ s.deeds, d.HasFrom own' a → d.toolTags = tagsOrDefault a.toolTags)
    (hequip : d.parentMemberId.isSome ∨ d.successorOfId.isSome → t.Equipped d) : t.Authority own' where
  inherited := by
    have hold : ∀ x ∈ s.deeds, x.id < d.id := by
      have hsorted : t.deeds.Pairwise fun a b => a.id < b.id := by
        rw [deeds, List.pairwise_map]
        exact ht.ancestry.in_order
      rw [hdeeds] at hsorted
      exact fun x hx => (List.pairwise_append.mp hsorted).2.2 x hx d (List.mem_singleton_self _)
    have hlt : ∀ a b : Deed, b ∈ t.deeds → b.HasFrom own' a → a.id < b.id :=
      fun a b hb hab => ht.origin_lt hb hab.origin
    intro a ha b hb hab
    have hab' := hlt a b hb hab
    rw [hdeeds] at ha hb
    rcases List.mem_append.mp ha with holdA | hnewA
    · rcases List.mem_append.mp hb with holdB | hnewB
      · refine h.inherited a holdA b holdB ?_
        rcases hab with hsucc | ⟨hnone, hparent, hnot⟩
        · exact .inl hsucc
        · exact .inr ⟨hnone, hparent, fun hmem => hnot (hown hmem)⟩
      · rw [List.mem_singleton.mp hnewB] at hab ⊢
        exact hfrom a holdA hab
    · -- nobody older has its tags from the new row
      rw [List.mem_singleton.mp hnewA] at hab'
      rcases List.mem_append.mp hb with holdB | hnewB
      · exact absurd (hold b holdB) hab'.asymm
      · rw [List.mem_singleton.mp hnewB] at hab'
        exact absurd hab' (lt_irrefl _)
  equipped := by
    intro b hb horigin
    rw [hdeeds] at hb
    rcases List.mem_append.mp hb with hb | hb
    · exact (h.equipped b hb horigin).mono hkeeps
    · obtain rfl := List.mem_singleton.mp hb
      exact hequip horigin

/-- The row a deed names by its id. -/
theorem Store.Inv.deed_eq (hs : s.Inv) {x : FamilyMemberModel} (hx : x ∈ s.members) {a : Deed}
    (ha : a ∈ s.deeds) (hid : a.id = x.id) : a = x.deed := by
  obtain ⟨y, hy, rfl⟩ := List.mem_map.mp ha
  rw [mem_members_unique hs hy hx hid]

theorem passOn_authority (ha : s.Authority own) (hs : s.Inv) {now : Time}
    (h : passOn tiers family now (p, s) m = some (q, t)) (hm : m ∈ s.members) (hliving : m.living)
    (hfam : m.familyId = family.id) : t.Authority own := by
  obtain ⟨hkeeps, heir, hdeeds, hequip, hsucc, htags⟩ := passOn_deeds hs h
  refine ha.append (passOn_inv h hs hm hliving hfam) hkeeps hdeeds (fun _ hx => hx) ?_ fun _ => hequip
  intro a hmem hfrom
  -- an heir has a predecessor, so its tags are from that one
  have hid : a.id = m.id := by
    rcases hfrom with hfrom | ⟨hnone, -, -⟩
    · exact Option.some.inj (hfrom.symm.trans hsucc)
    · exact absurd (hnone.symm.trans hsucc) (by simp)
  rw [hs.deed_eq hm hmem hid]
  exact htags

theorem ageFamily_authority (ha : s.Authority own) {forceAge : ℤ} :
    (s.ageFamily family forceAge).Authority own :=
  ha.same ageFamily_retouches.deeds ageFamily_retouches.keepsTools

theorem lifeTick_authority {req : TickRequest} (ha : s.Authority own) (hs : s.Inv)
    (h : lifeTick tiers s req = some (q, t)) : t.Authority own := by
  refine lifeTick_invariant (P := fun u => u.Authority own) ?_ ?_ hs ha h
  · intro u family forceAge _ hu
    exact ageFamily_authority hu
  · intro u v p q m family hu hauth hm hliving hfam hpass
    exact passOn_authority hauth hu hpass hm hliving hfam

end

/-! ## The tracked city -/

/-- The city together with the ids of the children that were spawned with tags of their own. -/
structure Tracked where
  store : Store
  own : List MemberId

/-- One call, tracked. -/
def Tracked.call (tiers : ModelTier) (s : Tracked) : Call → Option Tracked
  | .spawnChild req =>
      (spawnChild tiers s.store req).map fun (child, store) =>
        ⟨store, if req.toolTags.isSome then child.id :: s.own else s.own⟩
  | c => (s.store.call tiers c).map fun store => ⟨store, s.own⟩

/-- **The tracked city.** -/
def tracked (tiers : ModelTier) : Runs.System Tracked Call where
  init s := s.store.Founding ∧ s.own = []
  step := Tracked.call tiers

/-- Tracking only remembers: it neither adds nor forbids a call. -/
theorem tracked_call_store (tiers : ModelTier) (s : Tracked) (c : Call) :
    (s.call tiers c).map (·.store) = s.store.call tiers c := by
  cases c with
  | spawnChild req =>
      simp only [Tracked.call, Store.call, Option.map_map]
      rfl
  | createFamily req now | updateFamilyPolicy id patch now | updateMemberLife id goals dreams thinking
    | lifeTick req | work jobs =>
      simp [Tracked.call, Function.comp_def]

/-- Every reachable city is the city of a tracked one. -/
theorem exists_tracked (h : (system tiers).Reachable s) :
    ∃ own, (tracked tiers).Reachable ⟨s, own⟩ := by
  refine h.invariant (I := fun s => ∃ own, (tracked tiers).Reachable ⟨s, own⟩)
    (fun s h₀ => ⟨[], .init ⟨h₀, rfl⟩⟩) ?_
  rintro s c t ⟨own, hs⟩ - hcall
  have hmap := tracked_call_store tiers ⟨s, own⟩ c
  rw [show s.call tiers c = some t from hcall] at hmap
  obtain ⟨⟨t', own'⟩, ht, rfl⟩ := Option.map_eq_some_iff.mp hmap
  exact ⟨own', hs.tail trivial ht⟩

theorem tracked_emptyCity : (tracked tiers).init ⟨emptyCity, []⟩ :=
  ⟨(init_emptyCity : (system tiers).init emptyCity), rfl⟩

theorem tracked_init {s : Tracked} (h : (tracked tiers).init s) :
    s.store.Inv ∧ s.store.Authority s.own := by
  have hnil : s.store.deeds = [] := by rw [deeds, h.1.members, List.map_nil]
  exact ⟨inv_of_founding h.1, ⟨by simp [hnil], by simp [hnil]⟩⟩

/-- **Step lemma**: every call keeps the invariant. -/
theorem tracked_step {s t : Tracked} {c : Call} (hs : s.store.Inv ∧ s.store.Authority s.own)
    (h : (tracked tiers).step s c = some t) : t.store.Inv ∧ t.store.Authority t.own := by
  obtain ⟨hinv, hauth⟩ := hs
  have hcall : s.store.call tiers c = some t.store := by
    rw [← tracked_call_store, show s.call tiers c = some t from h, Option.map_some]
  have ht : t.store.Inv := call_inv hinv hcall
  refine ⟨ht, ?_⟩
  cases c with
  | createFamily req now =>
      obtain ⟨⟨id, store⟩, hcreate, rfl⟩ := Option.map_eq_some_iff.mp hcall
      obtain ⟨u, -, rfl⟩ := Option.map_eq_some_iff.mp h
      obtain ⟨hkeeps, d, hdeeds, hparent, hsucc⟩ := createFamily_deeds hcreate
      refine hauth.append ht hkeeps hdeeds (fun _ hx => hx) (fun a _ hfrom => ?_) fun horigin => ?_
      · rcases hfrom.origin with hi | hi
        · exact absurd (hparent.symm.trans hi) (by simp)
        · exact absurd (hsucc.symm.trans hi) (by simp)
      · simp [hparent, hsucc] at horigin
  | spawnChild req =>
      obtain ⟨⟨child, store⟩, hspawn, rfl⟩ := Option.map_eq_some_iff.mp h
      obtain ⟨hkeeps, hdeeds, hequip, hsucc, parent, hparent, hunder, htags⟩ :=
        spawnChild_deeds hinv hspawn
      refine hauth.append ht hkeeps hdeeds ?_ (fun a ha hfrom => ?_) fun _ => hequip
      · intro i hi
        show i ∈ if req.toolTags.isSome then child.id :: s.own else s.own
        split
        · exact List.mem_cons_of_mem _ hi
        · exact hi
      · rcases hfrom with hfrom | ⟨-, hfrom, hnot⟩
        · exact absurd (hsucc.symm.trans hfrom) (by simp)
        · have hid : a.id = parent.id := Option.some.inj (hfrom.symm.trans hunder)
          rw [hinv.deed_eq hparent ha hid]
          -- a child with tags of its own is on the list
          have hnone : req.toolTags = none := by
            by_contra hsome
            have hsome' : req.toolTags.isSome := Option.isSome_iff_ne_none.mpr hsome
            simp only [hsome', if_true] at hnot
            exact hnot List.mem_cons_self
          rw [hnone, Option.getD_none] at htags
          exact htags
  | updateFamilyPolicy id patch now =>
      obtain ⟨u, -, rfl⟩ := Option.map_eq_some_iff.mp h
      have hedit := updateFamilyPolicy_retouches hcall
      exact hauth.same hedit.deeds hedit.keepsTools
  | updateMemberLife id goals dreams structuredThinking =>
      obtain ⟨u, -, rfl⟩ := Option.map_eq_some_iff.mp h
      have hedit := updateMemberLife_retouches hcall
      exact hauth.same hedit.deeds hedit.keepsTools
  | lifeTick req =>
      obtain ⟨u, -, rfl⟩ := Option.map_eq_some_iff.mp h
      obtain ⟨⟨proof, store⟩, htick, rfl⟩ := Option.map_eq_some_iff.mp hcall
      exact lifeTick_authority hauth hinv htick
  | work jobs =>
      obtain rfl : ({ store := { s.store with jobs }, own := s.own } : Tracked) = t := Option.some.inj h
      exact hauth.same rfl fun i a ha => ⟨a, ha, rfl⟩

/-- `m` comes from `a` by any number of spawnings without tags and successions. -/
def Tracked.Descends (s : Tracked) : FamilyMemberModel → FamilyMemberModel → Prop :=
  Relation.TransGen fun a m =>
    a ∈ s.store.members ∧ m ∈ s.store.members ∧ m.deed.HasFrom s.own a.deed

theorem tagsOrDefault_idem (tags : List String) :
    tagsOrDefault (tagsOrDefault tags) = tagsOrDefault tags := by
  by_cases h : tags = []
  · rw [h]
    rfl
  · simp [tagsOrDefault, h]

/-- **Authority along a line of descent.** In every city reached by founding families, spawning children and
    ticks in which members die and are succeeded, for every member `m` that comes from `a` by any number of
    spawnings without a `tool_tags` argument and successions: `m` has the tags of `a` and its agent exactly
    the tools of these if and only if `a` has any tags, and likewise `m` has no tag `a` lacks. -/
theorem tags_inherited_iff {s : Tracked} (h : (tracked tiers).Reachable s) {a m : FamilyMemberModel}
    (hdesc : s.Descends a m) :
    ((m.toolTags = a.toolTags ∧ (s.store.getAgent m.agentId).map (·.tools)
        = some (toolNamesForTags a.toolTags)) ↔ a.toolTags ≠ []) ∧
      ((∀ tag ∈ m.toolTags, tag ∈ a.toolTags) ↔ a.toolTags ≠ []) := by
  have hauth : s.store.Authority s.own :=
    (h.invariant (I := fun s => s.store.Inv ∧ s.store.Authority s.own) (fun _ => tracked_init)
      fun _ _ _ hs _ hst => tracked_step hs hst).2
  have htags : m.toolTags = tagsOrDefault a.toolTags := by
    refine Lineage.handed_down tagsOrDefault_idem ?_ hdesc
    rintro a m ⟨ha, hm, hfrom⟩
    exact hauth.inherited a.deed (List.mem_map_of_mem ha) m.deed (List.mem_map_of_mem hm) hfrom
  have hequip : (s.store.getAgent m.agentId).map (·.tools) = some (toolNamesForTags m.toolTags) := by
    obtain ⟨b, -, hm, hfrom⟩ := (Relation.TransGen.tail'_iff.mp hdesc).imp fun _ => And.right
    refine hauth.equipped m.deed (List.mem_map_of_mem hm) ?_
    rcases hfrom.origin with hi | hi
    · exact .inl (by rw [hi]; rfl)
    · exact .inr (by rw [hi]; rfl)
  by_cases hnil : a.toolTags = []
  · -- the default tags have taken the place of none
    have hdefault : m.toolTags = defaultCityToolTags := by rw [htags, hnil]; rfl
    rw [hequip, hdefault, hnil]
    decide
  · have hsame : m.toolTags = a.toolTags := by rw [htags, tagsOrDefault, if_neg hnil]
    rw [hequip, hsame]
    exact ⟨⟨fun _ => hnil, fun _ => ⟨rfl, rfl⟩⟩, fun _ => hnil, fun _ _ htag => htag⟩

/-! ## Examples of runs -/

/-- A founder with one tag, its child, and two ticks in which the child and then the founder die. -/
def oneTag : List Call :=
  [.createFamily
      { name := "Moss", policy := { maxAgeTicks := some (some 2) }, toolTags := some ["workspace"] } 1,
   .spawnChild { familyId := 2, name := "Fern", roleLabel := some "executor" },
   .lifeTick { now := 2 }, .lifeTick { now := 3, order := [6, 3] }]

/-- The heir of the child has the tag of the founder. -/
theorem heir_has_founders_tag :
    ∃ s, (tracked ⟨"large", "small"⟩).exec ⟨emptyCity, []⟩ oneTag = some s ∧
      ∃ a m, s.Descends a m ∧ a.toolTags = ["workspace"] ∧ m.toolTags = a.toolTags := by
  have hex : ((tracked ⟨"large", "small"⟩).exec ⟨emptyCity, []⟩ oneTag).any (fun s =>
      s.store.members.any fun a => s.store.members.any fun b => s.store.members.any fun m =>
        decide (b.successorOfId = none ∧ b.parentMemberId = some a.id ∧ b.id ∉ s.own ∧
          m.successorOfId = some b.id ∧ a.toolTags = ["workspace"])) = true := by
    decide +kernel
  obtain ⟨s, hrun, hp⟩ := Runs.System.exists_of_exec hex
  obtain ⟨a, ha, hp⟩ := List.any_eq_true.mp hp
  obtain ⟨b, hb, hp⟩ := List.any_eq_true.mp hp
  obtain ⟨m, hm, hp⟩ := List.any_eq_true.mp hp
  obtain ⟨hnone, hunder, hnot, hsucc, htag⟩ := of_decide_eq_true hp
  have hdesc : s.Descends a m :=
    .tail (.single ⟨ha, hb, .inr ⟨hnone, hunder, hnot⟩⟩) ⟨hb, hm, .inl hsucc⟩
  have hreach := Runs.System.reachable_of_exec tracked_emptyCity hrun
  exact ⟨s, hrun, a, m, hdesc, htag,
    ((tags_inherited_iff hreach hdesc).1.mpr (by rw [htag]; decide)).1⟩

/-- A founder that is given no tags, and a tick in which it dies. -/
def noTags : List Call :=
  [.createFamily { name := "Moss", policy := { maxAgeTicks := some (some 1) }, toolTags := some [] } 1,
   .lifeTick { now := 2 }]

/-- The heir of a member without tags holds every tag there is by default. -/
theorem heir_gains_tags : ¬ ∀ (tiers : ModelTier) (s : Tracked) (a m : FamilyMemberModel),
    (tracked tiers).Reachable s → s.Descends a m →
      m.toolTags = a.toolTags ∧ ∀ tag ∈ m.toolTags, tag ∈ a.toolTags := by
  intro hall
  have hex : ((tracked ⟨"large", "small"⟩).exec ⟨emptyCity, []⟩ noTags).any (fun s =>
      s.store.members.any fun a => s.store.members.any fun m =>
        decide (m.successorOfId = some a.id ∧ m.toolTags ≠ a.toolTags)) = true := by
    decide +kernel
  obtain ⟨s, hrun, hp⟩ := Runs.System.exists_of_exec hex
  obtain ⟨a, ha, hp⟩ := List.any_eq_true.mp hp
  obtain ⟨m, hm, hp⟩ := List.any_eq_true.mp hp
  obtain ⟨hsucc, hne⟩ := of_decide_eq_true hp
  have hdesc : s.Descends a m := .single ⟨ha, hm, .inl hsucc⟩
  have hreach := Runs.System.reachable_of_exec tracked_emptyCity hrun
  exact hne (hall _ s a m hreach hdesc).1

end Persola.City
