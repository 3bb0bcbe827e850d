import Persola.Lib.Throttled
import Persola.City.LifeTick
import Persola.Persona.Cyrex

/-!
# `City.CyrexSync` — a city pushed to Cyrex

`city_cyrex_sync` takes one family after the other, reads its members and pushes the personas of the living, some at a
time; what Cyrex answers comes in any order, and the rows may change between two families. Whatever happens, nobody is
lost or counted twice (`cyrexSync_accounts`): the reports say of every push what Cyrex answered, and every member that
was read is synced, failed or skipped. Two things go wrong in them: one persona that does not validate keeps its whole
family out, and a persona that members share is reported under the last of them.
-/

namespace Persola.City

open Runs
open Agent (AgentId)
open Persona (PersonaId PersonaModel PersonaProfile CyrexClient)

/-! ## What a sync reads -/

/-- What the database answers to a request; `order` is that of the members. -/
structure Look where
  rows : Store
  order : List MemberId
  members_nodup : (rows.members.map (·.id)).Nodup

/-- A profile with its id, as it is posted to Cyrex. -/
structure Post where
  personaId : PersonaId
  profile : PersonaProfile

/-- A member, and the profile that is pushed for it. -/
structure Candidate extends Post where
  member : FamilyMemberModel

/-- The persona that is pushed for a member, unless it is skipped. -/
def Store.personaToPush (s : Store) (livingOnly : Bool) (m : FamilyMemberModel) : Option PersonaModel :=
  if livingOnly ∧ m.lifeStatus ≠ .alive then none
  else if livingOnly ∧ m.isActive = false then none
  else do
    let agent ← s.getAgent m.agentId
    let personaId ← agent.personaId
    s.getPersona personaId

/-- A round of the loop over the members; `none` is the `ValidationError` of `to_profile`. -/
def Store.sift (s : Store) (livingOnly : Bool) (acc : List Candidate × ℕ) (m : FamilyMemberModel) :
    Option (List Candidate × ℕ) :=
  match s.personaToPush livingOnly m with
  | none => some (acc.1, acc.2 + 1)
  | some persona => persona.toProfile.map fun profile =>
      (acc.1 ++ [{ personaId := persona.id, profile := profile, member := m }], acc.2)

/-- A family, and what was read when the sync came to it. -/
structure Visit where
  familyId : FamilyId
  look : Look

namespace Visit

/-- `family["members"]`. -/
def members (v : Visit) : List FamilyMemberModel := v.look.rows.rowsOf v.look.order v.familyId

/-- `candidates` and `skipped`. -/
def candidates (v : Visit) (livingOnly : Bool) : Option (List Candidate × ℕ) :=
  v.members.foldlM (v.look.rows.sift livingOnly) ([], 0)

end Visit

/-! ## What it reports -/

/-- What comes of a push: the body of the response, or the text of the exception. -/
abbrev Reply := Except String (Json ℚ)

/-- An entry of `results`. -/
structure SyncEntry where
  personaId : PersonaId
  reply : Reply
  agentId : Option AgentId
  memberId : Option MemberId

/-- `r.get("ok")`. -/
def replied (reply : Reply) : Bool := reply.toBool

/-- `by_persona.get(persona_id)`. -/
def byPersona (candidates : List Candidate) (personaId : PersonaId) : Option FamilyMemberModel :=
  Py.getItem (Py.assign [] (candidates.map fun c => (c.personaId, c.member))) personaId

/-- The results of the pushes, with the members that `by_persona` has for them. -/
def attach (candidates : List Candidate) (pushResults : List (Post × Reply)) : List SyncEntry :=
  pushResults.map fun r =>
    let m := byPersona candidates r.1.personaId
    { personaId := r.1.personaId, reply := r.2, agentId := m.map (·.agentId), memberId := m.map (·.id) }

/-- A `ValueError` of `bulk_cyrex_sync`. -/
inductive SyncError
  | familyNotFound
  | validationError
deriving DecidableEq

/-- What `bulk_cyrex_sync` returns or raises; the route of a family answers 404 to an error, the one of the city has an
entry for it. -/
inductive FamilySync
  | notConfigured (dryRun : Bool)
  | dry (wouldSync skipped : ℕ) (results : List (AgentId × PersonaId))
  | synced (synced skipped : ℕ) (results : List SyncEntry)
  | error (e : SyncError)

namespace FamilySync

/-- `r.get("configured")`. -/
def configured : FamilySync → Bool
  | dry _ _ _ | synced _ _ _ => true
  | notConfigured _ | error _ => false

/-- `r.get("synced") or 0`. -/
def syncedCount : FamilySync → ℕ
  | synced n _ _ => n
  | notConfigured _ | dry _ _ _ | error _ => 0

/-- `r.get("skipped") or 0`. -/
def skippedCount : FamilySync → ℕ
  | dry _ n _ | synced _ n _ => n
  | notConfigured _ | error _ => 0

/-- The entries of the pushes. -/
def entries : FamilySync → List SyncEntry
  | synced _ _ results => results
  | notConfigured _ | dry _ _ _ | error _ => []

end FamilySync

/-- The payload of `cyrex.sync.finished`, and the family it is about. -/
structure SyncFinished where
  familyId : FamilyId
  synced : ℕ
  failed : ℕ
  skipped : ℕ
  livingOnly : Bool
deriving DecidableEq

/-- What `city_cyrex_sync` returns. -/
structure CitySync where
  configured : Bool
  families : ℕ
  synced : ℕ
  skipped : ℕ
  results : List FamilySync

/-! ## A sync -/

/-- The families that are synced: one, or the first of the city. -/
inductive SyncRoute
  | family (id : FamilyId)
  | city (maxFamilies : ℤ)

/-- What a sync is called with. -/
structure SyncRequest where
  route : SyncRoute
  livingOnly : Bool := true
  dryRun : Bool := false
  concurrency : ℤ := 4
  client : CyrexClient

/-- The families in the order in which they are visited. -/
def SyncRequest.families (req : SyncRequest) (s : Store) : List FamilyId :=
  match req.route with
  | .family id => [id]
  | .city maxFamilies => (s.listRecent.map (·.id)).take (max 1 maxFamilies).toNat

/-- The slots of the semaphore of `push_personas`. -/
def SyncRequest.slots (req : SyncRequest) : ℕ := (max 1 req.concurrency).toNat

/-- How far a sync has come. -/
inductive SyncStage
  | listing
  | between (todo : List FamilyId)
  | pushing (visit : Visit) (candidates : List Candidate) (skipped : ℕ) (jobs : List (Throttled.Job Post Reply))
      (todo : List FamilyId)

/-- A sync: what it has to report of each family so far, what Cyrex has been sent and has answered, and the events it
has emitted. -/
structure Sync where
  stage : SyncStage := .listing
  results : List (Visit × FamilySync) := []
  posts : List Post := []
  answers : List (Post × Reply) := []
  events : List SyncFinished := []

/-- What happens next: the families are listed, the next one is read, a push starts or is answered, all of a family are
answered. -/
inductive SyncLabel
  | list (look : Look)
  | visit (look : Look)
  | push (e : Throttled.Event Reply)
  | finish

namespace Sync

variable (req : SyncRequest) (s : Sync)

/-- A family is done with. -/
def report (v : Visit) (result : FamilySync) (todo : List FamilyId) : Sync :=
  { s with stage := .between todo, results := s.results ++ [(v, result)] }

/-- `bulk_cyrex_sync`, up to the pushes. -/
def visit (v : Visit) (todo : List FamilyId) : Sync :=
  match v.look.rows.getFamily v.familyId with
  | none => s.report v (.error .familyNotFound) todo
  | some _ =>
      if req.client.IsConfigured then
        match v.candidates req.livingOnly with
        | none => s.report v (.error .validationError) todo
        | some (candidates, skipped) =>
            if req.dryRun then
              let results := candidates.map fun c => (c.member.agentId, c.personaId)
              s.report v (.dry candidates.length skipped results) todo
            else
              { s with stage := .pushing v candidates skipped (Throttled.submit (candidates.map (·.toPost))) todo }
      else s.report v (.notConfigured req.dryRun) todo

/-- The end of `bulk_cyrex_sync`. -/
def finish (v : Visit) (candidates : List Candidate) (skipped : ℕ) (todo : List FamilyId)
    (pushResults : List (Post × Reply)) : Sync :=
  let results := attach candidates pushResults
  let synced := results.countP fun r => replied r.reply
  let failed := results.countP fun r => !replied r.reply
  { s.report v (.synced synced skipped results) todo with
    events := s.events ++ [⟨v.familyId, synced, failed, skipped, req.livingOnly⟩] }

def step : SyncLabel → Option Sync
  | .list look =>
      match s.stage with
      | .listing => some { s with stage := .between (req.families look.rows) }
      | .between _ | .pushing _ _ _ _ _ => none
  | .visit look =>
      match s.stage with
      | .between (familyId :: todo) => some (s.visit req ⟨familyId, look⟩ todo)
      | .listing | .between [] | .pushing _ _ _ _ _ => none
  | .push e =>
      match s.stage with
      | .pushing v candidates skipped jobs todo => (Throttled.step req.slots jobs e).map fun jobs' =>
          { s with
            stage := .pushing v candidates skipped jobs' todo
            posts := s.posts ++ Throttled.started jobs e
            answers := s.answers ++ Throttled.answered jobs e }
      | .listing | .between _ => none
  | .finish =>
      match s.stage with
      | .pushing v candidates skipped jobs todo =>
          (Throttled.results jobs).map (s.finish req v candidates skipped todo)
      | .listing | .between _ => none

/-- The pushes of the family that is being synced. -/
def jobs : List (Throttled.Job Post Reply) :=
  match s.stage with
  | .pushing _ _ _ jobs _ => jobs
  | .listing | .between _ => []

/-- The pushes Cyrex is working on. -/
def inFlight : ℕ := Throttled.underWay s.jobs

/-- The families that have been read. -/
def visits : List Visit :=
  s.results.map Prod.fst ++
    match s.stage with
    | .pushing v _ _ _ _ => [v]
    | .listing | .between _ => []

/-- What the sync returns, when all families are done with. -/
def returned : Option CitySync :=
  match s.stage with
  | .between [] =>
      let familyResults := s.results.map Prod.snd
      some {
        configured := familyResults.any (·.configured)
        families := familyResults.length
        synced := (familyResults.map (·.syncedCount)).sum
        skipped := (familyResults.map (·.skippedCount)).sum
        results := familyResults }
  | .listing | .between (_ :: _) | .pushing _ _ _ _ _ => none

end Sync

/-- A sync, beside whatever else goes on in the city. -/
def cyrexSync (req : SyncRequest) : System Sync SyncLabel where
  init s := s = {}
  step := Sync.step req

/-! ## The members of a family -/

section
variable {v : Visit} {livingOnly : Bool} {cs : List Candidate} {skipped : ℕ} {m : FamilyMemberModel} {s : Store}
  {persona : PersonaModel}

/-- The personas that are to be pushed validate. -/
def Visit.Valid (v : Visit) (livingOnly : Bool) : Prop :=
  ∀ m ∈ v.members, ∀ persona, v.look.rows.personaToPush livingOnly m = some persona → persona.toProfile.isSome

/-- The candidates of a family: the members with a persona, only living ones where only they are wanted, each with the
profile of its persona; the others are skipped. -/
structure Visit.Candidates (v : Visit) (livingOnly : Bool) (cs : List Candidate) (skipped : ℕ) : Prop where
  members : cs.map (·.member) = v.members.filter fun m => (v.look.rows.personaToPush livingOnly m).isSome
  counted : cs.length + skipped = v.members.length
  living : livingOnly = true → ∀ c ∈ cs, c.member.living = true
  profile : ∀ c ∈ cs, ∃ persona, v.look.rows.personaToPush livingOnly c.member = some persona ∧
    persona.id = c.personaId ∧ persona.toProfile = some c.profile

/-- Only living members are pushed, where only they are wanted. -/
theorem living_of_personaToPush (h : s.personaToPush livingOnly m = some persona) (honly : livingOnly = true) :
    m.living = true := by
  unfold Store.personaToPush at h
  obtain ⟨hstatus, h⟩ := Option.ite_none_left_eq_some.mp h
  obtain ⟨hactive, -⟩ := Option.ite_none_left_eq_some.mp h
  have halive : m.lifeStatus = .alive := by simpa [honly] using hstatus
  have hon : m.isActive = true := by simpa [honly] using hactive
  simp [FamilyMemberModel.living, halive, hon]

theorem sift_isSome_iff {acc : List Candidate × ℕ} : (s.sift livingOnly acc m).isSome ↔
    ∀ persona, s.personaToPush livingOnly m = some persona → persona.toProfile.isSome := by
  unfold Store.sift
  cases h : s.personaToPush livingOnly m with
  | none => simp
  | some persona => simp

/-- **One persona that does not validate** keeps the whole family out. -/
theorem candidates_isSome_iff : (v.candidates livingOnly).isSome ↔ v.Valid livingOnly := by
  refine Runs.foldlM_isSome_iff (I := fun _ _ => True) (fun m _ acc _ => ?_) (fun _ _ _ _ _ _ => trivial) trivial
  exact sift_isSome_iff

/-- What the loop over the members finds. -/
theorem candidates_spec (h : v.candidates livingOnly = some (cs, skipped)) : v.Candidates livingOnly cs skipped := by
  -- what has been sifted, and what is left
  let I (rest : List FamilyMemberModel) (acc : List Candidate × ℕ) : Prop :=
    acc.1.map (·.member) ++ rest.filter (fun m => (v.look.rows.personaToPush livingOnly m).isSome) =
        v.members.filter (fun m => (v.look.rows.personaToPush livingOnly m).isSome) ∧
      acc.1.length + acc.2 + rest.length = v.members.length ∧
      ∀ c ∈ acc.1, ∃ persona, v.look.rows.personaToPush livingOnly c.member = some persona ∧
        persona.id = c.personaId ∧ persona.toProfile = some c.profile
  have hstep : ∀ m rest acc acc', I (m :: rest) acc → v.look.rows.sift livingOnly acc m = some acc' → I rest acc' := by
    rintro m rest ⟨cs, skipped⟩ acc' ⟨hmembers, hcount, hprofile⟩ hsift
    unfold Store.sift at hsift
    cases hpush : v.look.rows.personaToPush livingOnly m with
    | none =>
        rw [hpush] at hsift
        obtain rfl := Option.some.inj hsift
        rw [List.filter_cons_of_neg (by simp [hpush])] at hmembers
        refine ⟨hmembers, ?_, hprofile⟩
        have hcount : cs.length + skipped + (rest.length + 1) = v.members.length := hcount
        show cs.length + (skipped + 1) + rest.length = v.members.length
        omega
    | some persona =>
        rw [hpush] at hsift
        obtain ⟨profile, hvalid, rfl⟩ := Option.map_eq_some_iff.mp hsift
        rw [List.filter_cons_of_pos (by simp [hpush])] at hmembers
        refine ⟨?_, ?_, ?_⟩
        · rw [← hmembers, List.map_append, List.append_assoc]
          rfl
        · have hcount : cs.length + skipped + (rest.length + 1) = v.members.length := hcount
          show (cs ++ [_]).length + skipped + rest.length = _
          rw [List.length_append, List.length_singleton]
          omega
        · refine List.forall_mem_append.mpr ⟨hprofile, ?_⟩
          exact List.forall_mem_singleton.mpr ⟨persona, hpush, rfl, hvalid⟩
  have hstart : I v.members ([], 0) := ⟨rfl, by simp, by simp⟩
  obtain ⟨hmembers, hcount, hprofile⟩ := Runs.foldlM_invariant hstep hstart h
  refine ⟨by simpa using hmembers, by simpa using hcount, fun honly c hc => ?_, hprofile⟩
  obtain ⟨persona, hpush, -⟩ := hprofile c hc
  exact living_of_personaToPush hpush honly

theorem Visit.members_nodup (v : Visit) : (v.members.map (·.id)).Nodup := by
  have hperm := (Select.orderBy_perm (fun m => v.look.order.idxOf m.id) (v.look.rows.membersOf v.familyId)).map (·.id)
  refine hperm.nodup_iff.mpr ?_
  exact v.look.members_nodup.sublist (List.filter_sublist.map _)

/-- No member is a candidate twice. -/
theorem Visit.Candidates.nodup (h : v.Candidates livingOnly cs skipped) : (cs.map fun c => c.member.id).Nodup := by
  have hids : cs.map (fun c => c.member.id) = (cs.map (·.member)).map (·.id) := by
    rw [List.map_map]
    rfl
  rw [hids, h.members]
  exact v.members_nodup.sublist (List.filter_sublist.map _)

end

/-! ## Whose persona it was -/

section
variable {v : Visit} {livingOnly : Bool} {cs : List Candidate} {skipped : ℕ} {rs : List (Post × Reply)}

/-- The results are those of the candidates in their order. -/
theorem attach_map (hrs : rs.map Prod.fst = cs.map (·.toPost)) :
    (attach cs rs).map (fun r => (r.personaId, r.agentId, r.memberId)) = cs.map fun c =>
      (c.personaId, (byPersona cs c.personaId).map (·.agentId), (byPersona cs c.personaId).map (·.id)) := by
  have hposts := congrArg (List.map fun post : Post =>
    (post.personaId, (byPersona cs post.personaId).map (·.agentId), (byPersona cs post.personaId).map (·.id))) hrs
  rw [List.map_map, List.map_map] at hposts
  unfold attach
  rw [List.map_map]
  exact hposts

theorem attach_replies : (attach cs rs).map (fun r => (r.personaId, r.reply)) =
    rs.map fun r => (r.1.personaId, r.2) := by
  unfold attach
  rw [List.map_map]
  rfl

/-- A result names its own member exactly if no later candidate has the same persona. -/
theorem own_iff (h : v.Candidates livingOnly cs skipped) (hrs : rs.map Prod.fst = cs.map (·.toPost)) {j : ℕ}
    {r : SyncEntry} {c : Candidate} (hr : (attach cs rs)[j]? = some r) (hc : cs[j]? = some c) :
    r.memberId = some c.member.id ↔ ∀ i d, j < i → cs[i]? = some d → d.personaId ≠ c.personaId := by
  have hentry : r.memberId = (byPersona cs c.personaId).map (·.id) := by
    have hmap := congrArg (·[j]?) (attach_map hrs)
    rw [List.getElem?_map, List.getElem?_map, hr, hc] at hmap
    exact congrArg (·.2.2) (Option.some.inj hmap)
  have hpair : (cs.map fun c => (c.personaId, c.member))[j]? = some (c.personaId, c.member) := by
    rw [List.getElem?_map, hc]
    rfl
  have hnodup : ((cs.map fun c => (c.personaId, c.member)).map fun e => e.2.id).Nodup := by
    rw [List.map_map]
    exact h.nodup
  rw [hentry]
  refine (Py.getItem_assign_own_iff (fun m => m.id) hnodup hpair).trans (forall_congr' fun i => ?_)
  rw [List.getElem?_map]
  constructor
  · intro h d hlt hd
    exact h _ hlt (by rw [hd]; rfl)
  · intro h e hlt he
    obtain ⟨d, hd, rfl⟩ := Option.map_eq_some_iff.mp he
    exact h d hlt hd

/-- A persona of a candidate is found, under a candidate that has it. -/
theorem byPersona_of_mem {c : Candidate} (hc : c ∈ cs) :
    ∃ d ∈ cs, d.personaId = c.personaId ∧ byPersona cs c.personaId = some d.member := by
  have hmem : (c.personaId, c.member) ∈ (cs.map fun c => (c.personaId, c.member)).filter (·.1 = c.personaId) :=
    List.mem_filter.mpr ⟨List.mem_map_of_mem hc, decide_eq_true rfl⟩
  obtain ⟨e, he⟩ := Option.ne_none_iff_exists'.mp (mt List.getLast?_eq_none_iff.mp (List.ne_nil_of_mem hmem))
  obtain ⟨hmem, hkey⟩ := List.mem_filter.mp (List.mem_of_getLast? he)
  obtain ⟨d, hd, rfl⟩ := List.mem_map.mp hmem
  refine ⟨d, hd, of_decide_eq_true hkey, ?_⟩
  unfold byPersona
  rw [Py.getItem_assign, he]
  rfl

/-- **A dry run foretells the agents** that a sync of the same rows names, exactly if agents share no persona. -/
theorem foretold_iff (hrs : rs.map Prod.fst = cs.map (·.toPost)) :
    (attach cs rs).map (fun r => (r.agentId, r.personaId)) =
        cs.map (fun c => (some c.member.agentId, c.personaId)) ↔
      ∀ c ∈ cs, ∀ d ∈ cs, c.personaId = d.personaId → c.member.agentId = d.member.agentId := by
  have hmap := congrArg (List.map fun e : PersonaId × Option AgentId × Option MemberId => (e.2.1, e.1)) (attach_map hrs)
  rw [List.map_map, List.map_map] at hmap
  have hmap : (attach cs rs).map (fun r => (r.agentId, r.personaId)) =
    cs.map fun c => ((byPersona cs c.personaId).map (·.agentId), c.personaId) := hmap
  rw [hmap, List.map_inj_left]
  constructor
  · intro h c hc d hd heq
    have hcd : byPersona cs c.personaId = byPersona cs d.personaId := by rw [heq]
    have hagents := (congrArg Prod.fst (h c hc)).symm.trans
      ((congrArg (Option.map (·.agentId)) hcd).trans (congrArg Prod.fst (h d hd)))
    exact Option.some.inj hagents
  · intro h c hc
    obtain ⟨d, hd, hsame, hfound⟩ := byPersona_of_mem hc
    rw [hfound]
    show (some d.member.agentId, c.personaId) = _
    rw [h d hd c hc hsame]

end

/-! ## The accounts -/

/-- The post is the profile of a persona that is pushed for a member of the family, a living one where only they are
wanted. -/
def Visit.Pushes (v : Visit) (livingOnly : Bool) (post : Post) : Prop :=
  ∃ m ∈ v.members, (livingOnly = true → m.living = true) ∧ ∃ persona,
    v.look.rows.personaToPush livingOnly m = some persona ∧ persona.id = post.personaId ∧
      persona.toProfile = some post.profile

/-- A report of pushes balances: there is a result for each candidate, in their order; every member is synced, failed or
skipped; a result names the member of its candidate unless a later one has the same persona; and a dry run would have
named the same agents unless agents share a persona. -/
structure Visit.Balanced (v : Visit) (livingOnly : Bool) (cs : List Candidate) (synced skipped : ℕ)
    (results : List SyncEntry) : Prop where
  candidates : v.Candidates livingOnly cs skipped
  personas : results.map (·.personaId) = cs.map (·.personaId)
  synced_eq : synced = results.countP fun r => replied r.reply
  counted : synced + (results.countP fun r => !replied r.reply) + skipped = v.members.length
  own : ∀ (j : ℕ) (r : SyncEntry) (c : Candidate), results[j]? = some r → cs[j]? = some c →
    (r.memberId = some c.member.id ↔ ∀ i d, j < i → cs[i]? = some d → d.personaId ≠ c.personaId)
  foretold : results.map (fun r => (r.agentId, r.personaId)) =
      cs.map (fun c => (some c.member.agentId, c.personaId)) ↔
    ∀ c ∈ cs, ∀ d ∈ cs, c.personaId = d.personaId → c.member.agentId = d.member.agentId

/-- The report of a family is right. -/
def FamilySync.Right (req : SyncRequest) (v : Visit) : FamilySync → Prop
  | .notConfigured dryRun => ¬ req.client.IsConfigured ∧ dryRun = req.dryRun
  | .error .familyNotFound => v.look.rows.getFamily v.familyId = none
  | .error .validationError => ¬ v.Valid req.livingOnly
  | .dry wouldSync skipped results => req.dryRun = true ∧ ∃ cs, v.Candidates req.livingOnly cs skipped ∧
      wouldSync = cs.length ∧ results = cs.map fun c => (c.member.agentId, c.personaId)
  | .synced n skipped results => req.dryRun = false ∧ ∃ cs, v.Balanced req.livingOnly cs n skipped results

/-- The event that a report comes with. -/
def FamilySync.event (req : SyncRequest) (v : Visit) : FamilySync → Option SyncFinished
  | .synced n skipped results =>
      some ⟨v.familyId, n, results.countP fun r => !replied r.reply, skipped, req.livingOnly⟩
  | .notConfigured _ | .dry _ _ _ | .error _ => none

section
variable {v : Visit} {livingOnly : Bool} {cs : List Candidate} {skipped : ℕ} {rs : List (Post × Reply)}

theorem Visit.Candidates.pushes (h : v.Candidates livingOnly cs skipped) {c : Candidate} (hc : c ∈ cs) :
    v.Pushes livingOnly c.toPost := by
  obtain ⟨persona, hpush, hid, hprofile⟩ := h.profile c hc
  have hmem : c.member ∈ cs.map (·.member) := List.mem_map_of_mem hc
  rw [h.members] at hmem
  exact ⟨c.member, List.mem_of_mem_filter hmem, fun honly => h.living honly c hc, persona, hpush, hid, hprofile⟩

/-- **When all pushes are answered, the report balances.** -/
theorem Visit.Candidates.balanced (h : v.Candidates livingOnly cs skipped)
    (hrs : rs.map Prod.fst = cs.map (·.toPost)) :
    v.Balanced livingOnly cs ((attach cs rs).countP fun r => replied r.reply) skipped (attach cs rs) where
  candidates := h
  personas := by
    have hmap := congrArg (List.map fun e : PersonaId × Option AgentId × Option MemberId => e.1) (attach_map hrs)
    rwa [List.map_map, List.map_map] at hmap
  synced_eq := rfl
  counted := by
    have hlength : (attach cs rs).length = cs.length := by simpa using congrArg List.length (attach_map hrs)
    have hsplit := List.length_eq_countP_add_countP (fun r : SyncEntry => replied r.reply) (l := attach cs rs)
    simp only [Bool.not_eq_true, Bool.decide_eq_false] at hsplit
    rw [← hsplit, hlength]
    exact h.counted
  own _ _ _ hr hc := own_iff h hrs hr hc
  foretold := foretold_iff hrs

end

/-! ## Whole syncs -/

namespace Sync

variable {req : SyncRequest} {s t : Sync} {v : Visit} {todo : List FamilyId}

/-- The results that have been reported, of each persona. -/
def reported (s : Sync) : List (PersonaId × Reply) :=
  s.results.flatMap fun r => r.2.entries.map fun e => (e.personaId, e.reply)

/-- While a family is pushed it is one to be pushed, and the pushes are those of its candidates. -/
def Current (req : SyncRequest) : SyncStage → Prop
  | .listing | .between _ => True
  | .pushing v cs skipped jobs _ => req.dryRun = false ∧ req.client.IsConfigured ∧
      v.Candidates req.livingOnly cs skipped ∧ jobs.map (·.item) = cs.map (·.toPost)

/-- What Cyrex was sent and has answered is what has been reported and what the jobs under way say. -/
def Books (s : Sync) : Prop :=
  ∃ told : List (Post × Reply),
    s.posts.Perm (told.map Prod.fst ++ s.jobs.filterMap Throttled.Job.begun) ∧
    s.answers.Perm (told ++ s.jobs.filterMap Throttled.Job.outcome) ∧
    (told.map fun a => (a.1.personaId, a.2)).Perm s.reported

/-- The invariant of a sync. -/
structure Inv (req : SyncRequest) (s : Sync) : Prop where
  slots : s.inFlight ≤ req.slots
  current : Current req s.stage
  pushes : ∀ post ∈ s.posts, req.dryRun = false ∧ req.client.IsConfigured ∧
    ∃ v ∈ s.visits, v.Pushes req.livingOnly post
  right : ∀ r ∈ s.results, r.2.Right req r.1
  events : s.events = s.results.filterMap fun r => r.2.event req r.1
  books : s.Books

theorem jobs_of_between {ids : List FamilyId} (h : s.stage = .between ids) : s.jobs = [] := by
  unfold jobs
  rw [h]

theorem visits_of_between {ids : List FamilyId} (h : s.stage = .between ids) :
    s.visits = s.results.map Prod.fst := by
  unfold visits
  rw [h]
  exact List.append_nil _

/-- A family is reported without a push. -/
theorem Inv.report (h : s.Inv req) {ids : List FamilyId} (hstage : s.stage = .between ids) {result : FamilySync}
    (hentries : result.entries = []) (hevent : result.event req v = none) (hright : result.Right req v) :
    (s.report v result todo).Inv req where
  slots := Nat.zero_le _
  current := trivial
  pushes post hpost := by
    obtain ⟨hdry, hconfigured, u, hu, hpushes⟩ := h.pushes post hpost
    rw [visits_of_between hstage] at hu
    refine ⟨hdry, hconfigured, u, ?_, hpushes⟩
    rw [visits_of_between (s := s.report v result todo) rfl]
    show u ∈ (s.results ++ [(v, result)]).map Prod.fst
    rw [List.map_append]
    exact List.mem_append_left _ hu
  right := List.forall_mem_append.mpr ⟨h.right, List.forall_mem_singleton.mpr hright⟩
  events := by
    show s.events = (s.results ++ [(v, result)]).filterMap _
    rw [List.filterMap_append, ← h.events]
    simp [hevent]
  books := by
    obtain ⟨told, hposts, hanswers, htold⟩ := h.books
    rw [jobs_of_between hstage] at hposts hanswers
    refine ⟨told, hposts, hanswers, ?_⟩
    show (told.map fun a => (a.1.personaId, a.2)).Perm ((s.results ++ [(v, result)]).flatMap _)
    rw [List.flatMap_append, List.flatMap_singleton, hentries, List.map_nil, List.append_nil]
    exact htold

/-- The pushes of a family are handed to the semaphore. -/
theorem Inv.submit (h : s.Inv req) {ids : List FamilyId} (hstage : s.stage = .between ids) (hdry : req.dryRun = false)
    (hconfigured : req.client.IsConfigured) {cs : List Candidate} {skipped : ℕ}
    (hspec : v.Candidates req.livingOnly cs skipped) :
    Inv req { s with stage := .pushing v cs skipped (Throttled.submit (cs.map (·.toPost))) todo } where
  slots := by
    show Throttled.underWay (Throttled.submit (cs.map (·.toPost))) ≤ req.slots
    rw [Throttled.underWay_submit]
    exact Nat.zero_le _
  current := ⟨hdry, hconfigured, hspec, Throttled.items_submit _⟩
  pushes post hpost := by
    obtain ⟨hdry, hconfigured, u, hu, hpushes⟩ := h.pushes post hpost
    rw [visits_of_between hstage] at hu
    exact ⟨hdry, hconfigured, u, List.mem_append_left _ hu, hpushes⟩
  right := h.right
  events := h.events
  books := by
    obtain ⟨told, hposts, hanswers, htold⟩ := h.books
    rw [jobs_of_between hstage] at hposts hanswers
    refine ⟨told, ?_, ?_, htold⟩
    · show s.posts.Perm (_ ++ (Throttled.submit (cs.map (·.toPost))).filterMap Throttled.Job.begun)
      rw [Throttled.begun_submit]
      exact hposts
    · show s.answers.Perm (_ ++ (Throttled.submit (cs.map (·.toPost))).filterMap Throttled.Job.outcome)
      rw [Throttled.outcome_submit]
      exact hanswers

/-- The next family is read. -/
theorem Inv.visit (h : s.Inv req) {ids : List FamilyId} (hstage : s.stage = .between ids) :
    (s.visit req v todo).Inv req := by
  unfold Sync.visit
  split
  · next hfamily => exact h.report hstage rfl rfl hfamily
  · split
    · next hconfigured =>
        split
        · next hcandidates =>
            refine h.report hstage rfl rfl fun hvalid => ?_
            have hsome := candidates_isSome_iff.mpr hvalid
            rw [hcandidates] at hsome
            cases hsome
        · next cs skipped hcandidates =>
            have hspec := candidates_spec hcandidates
            split
            · next hdry => exact h.report hstage rfl rfl ⟨hdry, cs, hspec, rfl, rfl⟩
            · next hdry =>
                exact h.submit hstage (Bool.not_eq_true _ ▸ hdry) hconfigured hspec
    · next hconfigured => exact h.report hstage rfl rfl ⟨hconfigured, rfl⟩

/-- A push starts or is answered. -/
theorem Inv.push (h : s.Inv req) {cs : List Candidate} {skipped : ℕ} {jobs jobs' : List (Throttled.Job Post Reply)}
    {e : Throttled.Event Reply} (hstage : s.stage = .pushing v cs skipped jobs todo)
    (hstep : Throttled.step req.slots jobs e = some jobs') :
    Inv req { s with
      stage := .pushing v cs skipped jobs' todo
      posts := s.posts ++ Throttled.started jobs e
      answers := s.answers ++ Throttled.answered jobs e } where
  slots := by
    have hslots := h.slots
    unfold inFlight Sync.jobs at hslots
    rw [hstage] at hslots
    exact Throttled.underWay_step hstep hslots
  current := by
    have hcurrent := h.current
    rw [hstage] at hcurrent
    obtain ⟨hdry, hconfigured, hspec, hitems⟩ := hcurrent
    exact ⟨hdry, hconfigured, hspec, (Throttled.items_step hstep).trans hitems⟩
  pushes := by
    have hcurrent := h.current
    rw [hstage] at hcurrent
    obtain ⟨hdry, hconfigured, hspec, hitems⟩ := hcurrent
    have hvisits : s.visits = s.results.map Prod.fst ++ [v] := by
      unfold visits
      rw [hstage]
    refine List.forall_mem_append.mpr ⟨fun post hpost => ?_, fun post hpost => ?_⟩
    · obtain ⟨hdry, hconfigured, u, hu, hpushes⟩ := h.pushes post hpost
      rw [hvisits] at hu
      exact ⟨hdry, hconfigured, u, hu, hpushes⟩
    · have hmem : post ∈ cs.map (·.toPost) := hitems ▸ Throttled.mem_items_of_mem_started hpost
      obtain ⟨c, hc, rfl⟩ := List.mem_map.mp hmem
      exact ⟨hdry, hconfigured, v, List.mem_append_right _ (List.mem_singleton_self v), hspec.pushes hc⟩
  right := h.right
  events := h.events
  books := by
    obtain ⟨told, hposts, hanswers, htold⟩ := h.books
    have hjobs : s.jobs = jobs := by
      unfold Sync.jobs
      rw [hstage]
    rw [hjobs] at hposts hanswers
    refine ⟨told, ?_, ?_, htold⟩
    · refine (hposts.append_right _).trans ?_
      rw [List.append_assoc]
      exact ((Throttled.begun_step hstep).symm).append_left _
    · refine (hanswers.append_right _).trans ?_
      rw [List.append_assoc]
      exact ((Throttled.outcome_step hstep).symm).append_left _

/-- All pushes of a family are answered. -/
theorem Inv.finish (h : s.Inv req) {cs : List Candidate} {skipped : ℕ} {jobs : List (Throttled.Job Post Reply)}
    {rs : List (Post × Reply)} (hstage : s.stage = .pushing v cs skipped jobs todo)
    (hrs : Throttled.results jobs = some rs) : (s.finish req v cs skipped todo rs).Inv req := by
  have hcurrent := h.current
  rw [hstage] at hcurrent
  obtain ⟨hdry, hconfigured, hspec, hitems⟩ := hcurrent
  obtain ⟨houtcome, hfst, hbegun⟩ := Throttled.results_spec hrs
  have hposts : rs.map Prod.fst = cs.map (·.toPost) := hfst.trans hitems
  have hvisits : s.visits = s.results.map Prod.fst ++ [v] := by
    unfold visits
    rw [hstage]
  have hjobs : s.jobs = jobs := by
    unfold Sync.jobs
    rw [hstage]
  exact {
    slots := Nat.zero_le _
    current := trivial
    pushes := by
      intro post hpost
      obtain ⟨hdry, hconfigured, u, hu, hpushes⟩ := h.pushes post hpost
      rw [hvisits] at hu
      refine ⟨hdry, hconfigured, u, ?_, hpushes⟩
      rw [visits_of_between (s := s.finish req v cs skipped todo rs) rfl]
      show u ∈ (s.results ++ [_]).map Prod.fst
      rw [List.map_append]
      exact hu
    right := List.forall_mem_append.mpr
      ⟨h.right, List.forall_mem_singleton.mpr ⟨hdry, cs, hspec.balanced hposts⟩⟩
    events := by
      show s.events ++ [_] = (s.results ++ [_]).filterMap _
      rw [List.filterMap_append, ← h.events]
      rfl
    books := by
      obtain ⟨told, hsent, hanswers, htold⟩ := h.books
      rw [hjobs] at hsent hanswers
      rw [hbegun, ← hfst, ← List.map_append] at hsent
      rw [houtcome] at hanswers
      refine ⟨told ++ rs, ?_, ?_, ?_⟩
      · show s.posts.Perm (_ ++ [])
        rw [List.append_nil]
        exact hsent
      · show s.answers.Perm (_ ++ [])
        rw [List.append_nil]
        exact hanswers
      · show ((told ++ rs).map fun a => (a.1.personaId, a.2)).Perm ((s.results ++ [_]).flatMap _)
        rw [List.map_append, List.flatMap_append, List.flatMap_singleton]
        refine htold.append ?_
        show (rs.map _).Perm ((attach cs rs).map _)
        rw [attach_replies] }

/-- **Every step keeps the invariant.** -/
theorem Inv.step {l : SyncLabel} (h : s.Inv req) (hstep : s.step req l = some t) : t.Inv req := by
  unfold Sync.step at hstep
  cases l with
  | list look =>
      cases hstage : s.stage with
      | listing =>
          simp only [hstage] at hstep
          obtain rfl := Option.some.inj hstep
          have hjobs : s.jobs = [] := by
            unfold Sync.jobs
            rw [hstage]
          have hvisits : s.visits = s.results.map Prod.fst ++ [] := by
            unfold visits
            rw [hstage]
          refine ⟨Nat.zero_le _, trivial, fun post hpost => ?_, h.right, h.events, ?_⟩
          · obtain ⟨hdry, hconfigured, u, hu, hpushes⟩ := h.pushes post hpost
            rw [hvisits] at hu
            exact ⟨hdry, hconfigured, u, hu, hpushes⟩
          · obtain ⟨told, hposts, hanswers, htold⟩ := h.books
            rw [hjobs] at hposts hanswers
            exact ⟨told, hposts, hanswers, htold⟩
      | between ids => simp only [hstage] at hstep; cases hstep
      | pushing v cs skipped jobs todo => simp only [hstage] at hstep; cases hstep
  | visit look =>
      cases hstage : s.stage with
      | listing => simp only [hstage] at hstep; cases hstep
      | between ids =>
          cases ids with
          | nil => simp only [hstage] at hstep; cases hstep
          | cons familyId todo =>
              simp only [hstage] at hstep
              obtain rfl := Option.some.inj hstep
              exact h.visit hstage
      | pushing v cs skipped jobs todo => simp only [hstage] at hstep; cases hstep
  | push e =>
      cases hstage : s.stage with
      | listing => simp only [hstage] at hstep; cases hstep
      | between ids => simp only [hstage] at hstep; cases hstep
      | pushing v cs skipped jobs todo =>
          simp only [hstage] at hstep
          obtain ⟨jobs', hjobs, rfl⟩ := Option.map_eq_some_iff.mp hstep
          exact h.push hstage hjobs
  | finish =>
      cases hstage : s.stage with
      | listing => simp only [hstage] at hstep; cases hstep
      | between ids => simp only [hstage] at hstep; cases hstep
      | pushing v cs skipped jobs todo =>
          simp only [hstage] at hstep
          obtain ⟨rs, hrs, rfl⟩ := Option.map_eq_some_iff.mp hstep
          exact h.finish hstage hrs

/-- The invariant holds in whole syncs. -/
theorem inv_of_reachable (h : (cyrexSync req).Reachable s) : s.Inv req := by
  refine h.invariant (fun s hs => ?_) fun s l t hs _ hstep => hs.step hstep
  obtain rfl : s = {} := hs
  exact ⟨Nat.zero_le _, trivial, by simp, by simp, rfl, [], .nil, .nil, .nil⟩

/-- A sync that has not returned can go on, whatever it reads and is answered. -/
theorem goes_on (req : SyncRequest) (hopen : s.returned = none) (look : Look) (reply : Reply) :
    (s.step req (.list look)).isSome ∨ (s.step req (.visit look)).isSome ∨ (s.step req .finish).isSome ∨
      ∃ i, (s.step req (.push (.start i))).isSome ∨ (s.step req (.push (.finish i reply))).isSome := by
  cases hstage : s.stage with
  | listing => exact .inl (by simp [Sync.step, hstage])
  | between ids =>
      cases ids with
      | nil => simp [returned, hstage] at hopen
      | cons familyId todo => exact .inr (.inl (by simp [Sync.step, hstage]))
  | pushing v cs skipped jobs todo =>
      refine .inr (.inr ?_)
      cases hrs : Throttled.results jobs with
      | some rs => exact .inl (by simp [Sync.step, hstage, hrs])
      | none =>
          have hslots : 0 < req.slots := by
            unfold SyncRequest.slots
            omega
          obtain ⟨i, hi⟩ := Throttled.exists_step hslots hrs reply
          exact .inr ⟨i, hi.imp (by simp [Sync.step, hstage]) (by simp [Sync.step, hstage])⟩

/-- The synced of a report are its results that went well. -/
theorem syncedCount_eq {result : FamilySync} (h : result.Right req v) :
    result.syncedCount = result.entries.countP fun r => replied r.reply := by
  cases result with
  | synced n skipped results =>
      obtain ⟨-, cs, hbalanced⟩ := h
      exact hbalanced.synced_eq
  | notConfigured dryRun => rfl
  | dry wouldSync skipped results => rfl
  | error e => rfl

/-- When a sync has returned, everything that was sent has been answered and reported. -/
theorem Inv.returned (h : s.Inv req) {city : CitySync} (hcity : s.returned = some city) :
    s.posts.Perm (s.answers.map Prod.fst) ∧
      ((city.results.flatMap (·.entries)).map fun r => (r.personaId, r.reply)).Perm
        (s.answers.map fun a => (a.1.personaId, a.2)) ∧
      city.synced = s.answers.countP fun a => replied a.2 := by
  have hend : s.stage = .between [] ∧ city.results = s.results.map Prod.snd ∧
      city.synced = ((s.results.map Prod.snd).map (·.syncedCount)).sum := by
    unfold Sync.returned at hcity
    cases hstage : s.stage with
    | listing => simp only [hstage] at hcity; cases hcity
    | pushing v cs skipped jobs todo => simp only [hstage] at hcity; cases hcity
    | between ids =>
        cases ids with
        | cons familyId todo => simp only [hstage] at hcity; cases hcity
        | nil =>
            simp only [hstage] at hcity
            obtain rfl := Option.some.inj hcity
            exact ⟨rfl, rfl, rfl⟩
  obtain ⟨hstage, hresults, hsynced⟩ := hend
  obtain ⟨told, hposts, hanswers, htold⟩ := h.books
  rw [jobs_of_between hstage] at hposts hanswers
  simp only [List.filterMap_nil, List.append_nil] at hposts hanswers
  have hreported : (city.results.flatMap (·.entries)).map (fun r => (r.personaId, r.reply)) = s.reported := by
    rw [hresults, List.flatMap_map, List.map_flatMap]
    rfl
  refine ⟨hposts.trans (hanswers.symm.map _), ?_, ?_⟩
  · rw [hreported]
    exact htold.symm.trans (hanswers.symm.map _)
  · calc city.synced = (s.results.map fun r => r.2.entries.countP fun e => replied e.reply).sum := by
          rw [hsynced, List.map_map]
          exact congrArg List.sum (List.map_congr_left fun r hr => syncedCount_eq (h.right r hr))
      _ = s.reported.countP fun e => replied e.2 := by
          unfold reported
          rw [List.countP_flatMap]
          refine congrArg List.sum (List.map_congr_left fun r _ => ?_)
          rw [Function.comp_apply, List.countP_map]
          rfl
      _ = (told.map fun a => (a.1.personaId, a.2)).countP fun e => replied e.2 := (htold.countP_eq _).symm
      _ = told.countP fun a => replied a.2 := by
          rw [List.countP_map]
          rfl
      _ = s.answers.countP fun a => replied a.2 := (hanswers.countP_eq _).symm

end Sync

/-- The accounts of a sync: no more pushes are under way than the request allows; only living members' personas are
pushed, where only they are wanted, and none in a dry run; the report of every family is right; when the sync has
returned, everything that was sent has been answered and is reported with what Cyrex answered, and the total counts what
went well; until then it can go on, whatever it reads and is answered. -/
structure Sync.Accounts (req : SyncRequest) (s : Sync) : Prop where
  bounded : (s.inFlight : ℤ) ≤ max 1 req.concurrency
  pushes : ∀ post ∈ s.posts, req.dryRun = false ∧ req.client.IsConfigured ∧
    ∃ v ∈ s.visits, v.Pushes req.livingOnly post
  right : ∀ r ∈ s.results, r.2.Right req r.1
  events : s.events = s.results.filterMap fun r => r.2.event req r.1
  answered : ∀ city, s.returned = some city → s.posts.Perm (s.answers.map Prod.fst)
  told : ∀ city, s.returned = some city →
    ((city.results.flatMap (·.entries)).map fun r => (r.personaId, r.reply)).Perm
      (s.answers.map fun a => (a.1.personaId, a.2))
  total : ∀ city, s.returned = some city → city.synced = s.answers.countP fun a => replied a.2
  goes_on : s.returned = none → ∀ look reply,
    (s.step req (.list look)).isSome ∨ (s.step req (.visit look)).isSome ∨ (s.step req .finish).isSome ∨
      ∃ i, (s.step req (.push (.start i))).isSome ∨ (s.step req (.push (.finish i reply))).isSome

/-- **A sync keeps its accounts**, whatever it reads of the families and in whatever order the pushes go. -/
theorem cyrexSync_accounts (req : SyncRequest) {s : Sync} (h : (cyrexSync req).Reachable s) : s.Accounts req := by
  have hinv := Sync.inv_of_reachable h
  have hslots := hinv.slots
  unfold SyncRequest.slots at hslots
  exact {
    bounded := by omega
    pushes := hinv.pushes
    right := hinv.right
    events := hinv.events
    answered := fun city hcity => (hinv.returned hcity).1
    told := fun city hcity => (hinv.returned hcity).2.1
    total := fun city hcity => (hinv.returned hcity).2.2
    goes_on := Sync.goes_on req }

/-- A member of family 1. -/
def mossMember (id : MemberId) (agentId : AgentId) (lifeStatus : FamilyMemberLifeStatus) : FamilyMemberModel where
  id := id
  familyId := 1
  agentId := agentId
  parentMemberId := none
  roleInFamily := .child
  roleLabel := none
  knobOverrides := []
  toolTags := []
  generation := 0
  maxAgeTicks := 40
  lifeStatus := lifeStatus
  goals := []
  dreams := []
  structuredThinking := 1/2
  growth := 0

/-- A family of three, one of them dead; the other two have one persona. -/
def mossLook : Look where
  rows := {
    families := [{
      id := 1, name := "Moss", description := none, defaultDistrict := .build, policy := {}, updatedAt := 0 }]
    members := [mossMember 2 12 .alive, mossMember 3 13 .deceased, mossMember 4 14 .alive]
    agents := [12, 13, 14].map fun id =>
      { id := id, name := "Moss", model := none, systemPrompt := none, personaId := some 20 }
    personas := [{
      id := 20, name := "Moss", description := none, knobs := fun _ => 1/2, model := "llama3:8b", systemPrompt := none,
      temperature := 7/10, maxTokens := 2000, isPreset := false }]
    jobs := []
    fresh := 30 }
  order := []
  members_nodup := by decide

def mossRequest : SyncRequest where
  route := .city 20
  client := ⟨"http://cyrex", "key"⟩

/-- The second push starts first and is answered last. -/
def mossLabels : List SyncLabel :=
  [.list mossLook, .visit mossLook, .push (.start 1), .push (.start 0), .push (.finish 0 (.ok (.str "synced"))),
   .push (.finish 1 (.error "timeout")), .finish]

/-- The dead member is skipped, one push goes well and one fails; both are reported under the second member. -/
theorem cyrexSync_accounts_moss : ∃ s, (cyrexSync mossRequest).exec {} mossLabels = some s ∧
    s.posts.length = 2 ∧ s.events = [⟨1, 1, 1, 1, true⟩] ∧
    (s.results.flatMap fun r => r.2.entries.map fun e => (e.personaId, e.memberId)) = [(20, some 4), (20, some 4)] ∧
    s.Accounts mossRequest := by
  have hex : ((cyrexSync mossRequest).exec {} mossLabels).any (fun s =>
      decide (s.posts.length = 2 ∧ s.events = [⟨1, 1, 1, 1, true⟩] ∧
        (s.results.flatMap fun r => r.2.entries.map fun e => (e.personaId, e.memberId)) =
          [(20, some 4), (20, some 4)])) = true := by
    decide +kernel
  obtain ⟨s, hrun, hshown⟩ := Runs.System.exists_of_exec hex
  obtain ⟨hposts, hevents, hentries⟩ := of_decide_eq_true hshown
  exact ⟨s, hrun, hposts, hevents, hentries,
    cyrexSync_accounts mossRequest (Runs.System.reachable_of_exec rfl hrun)⟩

end Persola.City
