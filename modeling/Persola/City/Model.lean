import Persola.Lib.Select
import Persola.Agent.Model
import Persola.City.Life

/-!
# `City.Model` — families, their members and jobs, and the repositories over them

The tables of the communal city. Rows get their ids from one counter, so ids tell the order of creation.
`int()` and `float()` of a JSON value are given by what they read: `none` where they raise.
-/

namespace Persola.City

open Agent (AgentId AgentModel)
open Persona (PersonaId PersonaModel PersonaProfile)

abbrev FamilyId := ℕ
abbrev MemberId := ℕ
abbrev JobId := ℕ
abbrev Time := ℕ

/-- `CityDistrict`. -/
inductive CityDistrict
  | build | viz | research | ops
deriving DecidableEq, Repr

/-- The district of this name. -/
def CityDistrict.ofName? : String → Option CityDistrict
  | "build" => some .build
  | "viz" => some .viz
  | "research" => some .research
  | "ops" => some .ops
  | _ => none

/-- The value of a district. -/
def CityDistrict.name : CityDistrict → String
  | .build => "build"
  | .viz => "viz"
  | .research => "research"
  | .ops => "ops"

/-- `FamilyMemberRole`. -/
inductive FamilyMemberRole
  | parent | child
deriving DecidableEq, Repr

/-- `FamilyMemberLifeStatus`. -/
inductive FamilyMemberLifeStatus
  | alive | deceased
deriving DecidableEq, Repr

/-- `CityJobStatus`. -/
inductive CityJobStatus
  | pending | planned | running | completed | failed
deriving DecidableEq, Repr

/-- A JSON value as `int()` reads it. -/
abbrev IntLike := Option ℤ

/-- A JSON value as `float()` reads it, infinities and NaN as what clamping to `[0, 1]` makes of them. -/
abbrev FloatLike := Option ℚ

/-- The keys of a family policy, `α` being the values of `max_age_ticks`: integers in a stored policy, what
`int()` makes of them in a request. `none` where the key is missing. -/
structure PolicyOf (α : Type) where
  maxAgeTicks : Option α := none
  cohesionMin : Option FloatLike := none
  districtBias : Option String := none
  notes : Option String := none
deriving DecidableEq

/-- A stored policy. -/
abbrev Policy := PolicyOf ℤ

/-- A policy, or a patch of one, as a request gives it. -/
abbrev PolicyRequest := PolicyOf IntLike

/-- A row of `families`. -/
structure FamilyModel where
  id : FamilyId
  name : String
  description : Option String
  defaultDistrict : CityDistrict
  policy : Policy
  isActive : Bool := true
  updatedAt : Time

/-- A row of `family_members`. -/
structure FamilyMemberModel where
  id : MemberId
  familyId : FamilyId
  agentId : AgentId
  parentMemberId : Option MemberId
  roleInFamily : FamilyMemberRole
  roleLabel : Option String
  knobOverrides : KnobMap
  toolTags : List String
  isActive : Bool := true
  generation : ℕ
  ageTicks : ℤ := 0
  maxAgeTicks : ℤ
  lifeStatus : FamilyMemberLifeStatus := .alive
  goals : List String
  dreams : List String
  structuredThinking : ℚ
  growth : ℚ
  deceasedAt : Option Time := none
  successorOfId : Option MemberId := none

/-- A row of `city_jobs`. -/
structure CityJobModel where
  id : JobId
  familyId : FamilyId
  district : CityDistrict
  status : CityJobStatus
  createdAt : Time
  completedAt : Option Time := none
deriving DecidableEq, Repr

/-- The tables; `fresh` is the next unused id. -/
structure Store where
  families : List FamilyModel
  members : List FamilyMemberModel
  agents : List AgentModel
  personas : List PersonaModel
  jobs : List CityJobModel
  fresh : ℕ

namespace Store

/-! ## Repositories -/

/-- `AgentRepository.get`. -/
def getAgent (s : Store) (id : AgentId) : Option AgentModel := s.agents.find? (·.id = id)

/-- `PersonaRepository.get`. -/
def getPersona (s : Store) (id : PersonaId) : Option PersonaModel := s.personas.find? (·.id = id)

/-- `FamilyRepository.get`. -/
def getFamily (s : Store) (id : FamilyId) : Option FamilyModel := s.families.find? (·.id = id)

/-- `FamilyMemberRepository.get`. -/
def getMember (s : Store) (id : MemberId) : Option FamilyMemberModel := s.members.find? (·.id = id)

/-- `FamilyRepository.list_recent`. -/
def listRecent (s : Store) (limit : ℕ := 50) : List FamilyModel :=
  (Select.orderByDesc (·.updatedAt) (s.families.filter (·.isActive))).take limit

/-- The members of a family. -/
def membersOf (s : Store) (id : FamilyId) : List FamilyMemberModel :=
  s.members.filter (·.familyId = id)

/-- `CityJobRepository.list_for_family`. -/
def listForFamily (s : Store) (id : FamilyId) (limit : ℕ) : List CityJobModel :=
  (Select.orderByDesc (·.createdAt) (s.jobs.filter (·.familyId = id))).take limit

end Store

/-- `Result.scalar_one_or_none`: the only row or none; the outer `none` is `MultipleResultsFound`. -/
def scalarOneOrNone {α : Type*} : List α → Option (Option α)
  | [] => some none
  | [a] => some (some a)
  | _ => none

/-- The member is alive and active. -/
def FamilyMemberModel.living (m : FamilyMemberModel) : Bool :=
  m.lifeStatus = .alive && m.isActive

/-- `FamilyMemberRepository.get_parent`: the living parent, else the only parent there ever was. -/
def Store.getParent (s : Store) (id : FamilyId) : Option (Option FamilyMemberModel) := do
  let parents := (s.membersOf id).filter (·.roleInFamily = .parent)
  match ← scalarOneOrNone (parents.filter (·.living)) with
  | some parent => some (some parent)
  | none => scalarOneOrNone parents

/-- `CityService._family_efficiency`. -/
def Store.familyEfficiency (s : Store) (id : FamilyId) (livingCount : ℕ) : ℚ :=
  let completed := (s.listForFamily id 200).countP (·.status = .completed)
  Py.round 4 (completed / max 1 livingCount)

end Persola.City
