import Persola.City.Families
import Persola.Lib.Runs

/-!
# `City.LifeTick` — ageing, death and succession

`life_tick` and `_succeed_member` of `CityService`, and the city as a system whose actions are the calls on
its families. One call is one transaction: `none` is an exception and leaves the tables alone. Every query
sees the rows written before it in the same call.

The rows of a family come in whatever order the database returns them; a tick carries that order as a list
of member ids. The averages of efficiency in the report of a tick are not modelled.
-/

namespace Persola.City

open Agent (AgentId AgentModel)
open Persona (PersonaId PersonaModel)

/-- The arguments of `life_tick`, with the clock and the order in which rows are returned. -/
structure TickRequest where
  maxFamilies : Option ℤ := none
  forceAge : ℤ := 1
  now : Time := 0
  order : List MemberId := []

/-- An entry of `family_reports`. -/
structure Succession where
  familyId : FamilyId
  deceasedMemberId : MemberId
  heirMemberId : MemberId
  generation : ℕ
deriving DecidableEq

/-- What a tick reports. -/
structure LifeProof where
  aged : ℕ := 0
  died : ℕ := 0
  born : ℕ := 0
  successions : List Succession := []

/-- `x or d` on numbers: zero is falsy. -/
def numOr {α : Type*} [Zero α] [DecidableEq α] (x d : α) : α := if x = 0 then d else x

/-! ## Ageing -/

/-- A living member after one tick. -/
def FamilyMemberModel.age (policy : Policy) (forceAge : ℤ) (m : FamilyMemberModel) :
    FamilyMemberModel :=
  { m with
    ageTicks := m.ageTicks + max 1 forceAge
    growth := min 1 (m.growth + 4/100)
    structuredThinking := min 1 (numOr m.structuredThinking (1/2) + 15/1000)
    maxAgeTicks := policy.maxAgeTicks.getD m.maxAgeTicks }

/-- How old the member gets: what the policy says, else its own limit, else the default. -/
def FamilyMemberModel.lifespan (policy : Policy) (m : FamilyMemberModel) : ℤ :=
  policy.maxAgeTicks.getD (numOr m.maxAgeTicks defaultMaxAgeTicks)

/-- The row of a member that dies. -/
def FamilyMemberModel.die (now : Time) (m : FamilyMemberModel) : FamilyMemberModel :=
  { m with lifeStatus := .deceased, isActive := false, deceasedAt := some now }

/-- The tick is the last of the member's life. -/
def FamilyMemberModel.comesDue (policy : Policy) (forceAge : ℤ) (m : FamilyMemberModel) : Bool :=
  m.living && decide (m.lifespan policy ≤ m.ageTicks + max 1 forceAge)

namespace Store

/-- The members of a family in the order the database returns them. -/
def rowsOf (s : Store) (order : List MemberId) (id : FamilyId) : List FamilyMemberModel :=
  Select.orderBy (fun m => order.idxOf m.id) (s.membersOf id)

/-- The living members of a family. -/
def livingOf (s : Store) (id : FamilyId) : List FamilyMemberModel :=
  (s.membersOf id).filter (·.living)

/-- Age the living members of a family. -/
def ageFamily (s : Store) (family : FamilyModel) (forceAge : ℤ) : Store :=
  { s with members := s.members.map fun m =>
      if m.familyId = family.id ∧ m.living then m.age family.policy forceAge else m }

/-- A member dies, and its agent is switched off. -/
def bury (s : Store) (m : FamilyMemberModel) (now : Time) : Store :=
  (s.setMember m.id (·.die now)).setAgent m.agentId fun a => { a with isActive := false }

end Store

/-! ## Succession -/

/-- The name a line of members carries: the agent's, without the suffixes of earlier generations. -/
def lineName (agentName : String) : String := Py.rstrip (Py.splitHead agentName " · G")

/-- The name of the agent of the heir. -/
def heirName (agentName : String) (generation : ℕ) : String :=
  lineName agentName ++ " · G" ++ toString generation

/-- The name of the persona of the heir. -/
def heirPersonaName (agentName : String) (generation : ℕ) : String :=
  heirName agentName generation ++ " Persona"

/-- The description of the persona of the heir. -/
def heirDescription (agentName : String) (generation : ℕ) : String :=
  "Successor of " ++ agentName ++ "; generation " ++ toString generation

/-- The name of the agent of a member. -/
def Store.agentName (s : Store) (m : FamilyMemberModel) : String :=
  ((s.getAgent m.agentId).map AgentModel.name).getD "Heir"

/-- The knobs of the heir: those of the member drift one generation, and once more over the persona. -/
def Store.heirKnobs (s : Store) (m : FamilyMemberModel) : KnobMap :=
  let knobs := mutateKnobs m.knobOverrides (m.generation + 1)
  match ((s.getAgent m.agentId).bind AgentModel.personaId).bind s.getPersona with
  | none => knobs
  -- the overrides have drifted once already: over a persona they drift a second time
  | some persona => mutateKnobs (mergeKnobs (knobValues persona) knobs) (m.generation + 1)

/-- `list(dict.fromkeys(xs))`. -/
def fromKeys (xs : List String) : List String :=
  xs.foldl (fun kept x => if x ∈ kept then kept else kept ++ [x]) []

/-- `list(xs or default)`. -/
def listOr (xs default : List String) : List String := if xs = [] then default else xs

/-- Whom the heir is attached to: the living parent of the family when there is one. -/
def parentForLineage (deceased : FamilyMemberModel) (livingParent : Option FamilyMemberModel) :
    MemberId :=
  match livingParent with
  | some parent => if parent.lifeStatus = .alive then parent.id else deceased.id
  | none => deceased.id

/-- `_succeed_member`, for a member that `bury` has just marked. -/
def Store.succeedMember (tiers : ModelTier) (s : Store) (deceased : FamilyMemberModel)
    (family : FamilyModel) : Option (FamilyMemberModel × Store) := do
  let nextGen := deceased.generation + 1
  let roleLabel := Py.orElse deceased.roleLabel "builder"
  let baseName := s.agentName deceased
  -- the member is marked dead by now, so a parent that dies does not find itself here
  let livingParent ← s.getParent family.id
  let knobs := s.heirKnobs deceased
  let tags := tagsOrDefault deceased.toolTags
  let model := tiers.forRole (if deceased.roleInFamily = .parent then "parent" else "child") roleLabel
  let (persona, s) := s.createPersona (heirPersonaName baseName nextGen)
    (heirDescription baseName nextGen) (knobsOr knobs) model (7/10) 2000
  -- the one check of the heir: its texts may be too long for a profile
  let profile ← persona.toProfile
  let (agent, s) := s.createAgent (heirName baseName nextGen) model persona.id profile
    (toolNamesForTags tags)
  return s.createMember
    { id := 0, familyId := family.id, agentId := agent.id,
      parentMemberId :=
        if deceased.roleInFamily = .parent then none else some (parentForLineage deceased livingParent),
      roleInFamily := deceased.roleInFamily, roleLabel := some roleLabel, knobOverrides := knobs,
      toolTags := tags, generation := nextGen,
      maxAgeTicks := family.policy.maxAgeTicks.getD (numOr deceased.maxAgeTicks defaultMaxAgeTicks),
      goals := listOr deceased.goals (defaultGoals roleLabel),
      dreams := (fromKeys (listOr deceased.dreams (defaultDreams roleLabel) ++
        ["honor legacy of " ++ lineName baseName])).take 6,
      structuredThinking :=
        min 1 (numOr deceased.structuredThinking (1/2) * (85/100) + deceased.growth * (2/10) + 5/100),
      growth := min 1 (deceased.growth * (5/10) + 1/10),
      successorOfId := some deceased.id }

/-! ## The tick -/

/-- One death: the member is buried and its heir created. -/
def passOn (tiers : ModelTier) (family : FamilyModel) (now : Time) (t : LifeProof × Store)
    (m : FamilyMemberModel) : Option (LifeProof × Store) := do
  let (heir, s) ← (t.2.bury m now).succeedMember tiers m family
  let succession : Succession := ⟨family.id, m.id, heir.id, heir.generation⟩
  return ({ t.1 with
    died := t.1.died + 1, born := t.1.born + 1, successions := t.1.successions ++ [succession] }, s)

/-- The members of a family that the tick kills, as they are after ageing. -/
def Store.deaths (s : Store) (family : FamilyModel) (req : TickRequest) : List FamilyMemberModel :=
  ((s.rowsOf req.order family.id).filter (·.comesDue family.policy req.forceAge)).map
    (·.age family.policy req.forceAge)

/-- One family of a tick: its living members age, and those that come due pass on. -/
def tickFamily (tiers : ModelTier) (req : TickRequest) (t : LifeProof × Store) (family : FamilyModel) :
    Option (LifeProof × Store) :=
  let proof := { t.1 with aged := t.1.aged + (t.2.livingOf family.id).length }
  -- who dies is settled before the first death: an heir is not on the list, so it does not age either
  (t.2.deaths family req).foldlM (passOn tiers family req.now)
    (proof, t.2.ageFamily family req.forceAge)

/-- The families of a tick. -/
def Store.tickFamilies (s : Store) (req : TickRequest) : List FamilyModel :=
  match req.maxFamilies with
  | none => s.listRecent
  | some n => s.listRecent.take (max 1 n).toNat

/-- `life_tick`. -/
def lifeTick (tiers : ModelTier) (s : Store) (req : TickRequest) : Option (LifeProof × Store) :=
  (s.tickFamilies req).foldlM (tickFamily tiers req) ({}, s)

/-! ## The city as a system -/

/-- A call on the families of the city. -/
inductive Call
  | createFamily (req : CreateFamily) (now : Time)
  | spawnChild (req : SpawnChild)
  | updateFamilyPolicy (id : FamilyId) (patch : PolicyRequest) (now : Time)
  | updateMemberLife (id : MemberId) (goals dreams : Option (List String))
      (structuredThinking : Option ℚ)
  | lifeTick (req : TickRequest)
  /-- Work on jobs, by other calls. -/
  | work (jobs : List CityJobModel)

/-- One call that returns. -/
def Store.call (tiers : ModelTier) (s : Store) : Call → Option Store
  | .createFamily req now => (createFamily tiers s req now).map Prod.snd
  | .spawnChild req => (spawnChild tiers s req).map Prod.snd
  | .updateFamilyPolicy id patch now => updateFamilyPolicy s id patch now
  | .updateMemberLife id goals dreams thinking => updateMemberLife s id goals dreams thinking
  | .lifeTick req => (City.lifeTick tiers s req).map Prod.snd
  | .work jobs => some { s with jobs }

/-- No family yet; agents and personas may exist. -/
structure Store.Founding (s : Store) : Prop where
  families : s.families = []
  members : s.members = []
  agents : ∀ a ∈ s.agents, a.id < s.fresh
  personas : ∀ p ∈ s.personas, p.id < s.fresh

/-- **The city.** -/
def system (tiers : ModelTier) : Runs.System Store Call where
  init := Store.Founding
  step := Store.call tiers

end Persola.City
