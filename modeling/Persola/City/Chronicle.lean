import Persola.City.Register
import Persola.Persona.History

/-!
# `City.Chronicle` — families that take over a persona, and its version history

`create_family` may be given a persona that exists. It applies the knob overrides of the request to the row and
sets its model, in a subsystem that knows nothing of `persona_versions`. The endpoints of `Persona.Registry`
keep every history (`documented_run`); founding a family keeps it exactly when it leaves the values of the
persona as they are, or the persona has no versions (`documented_throughout_iff`).
-/

namespace Persola.City

open Persona (PersonaId PersonaModel PersonaProfile PersonaVersionModel Registry Edit)
open Persona.Registry (Filed Documented Shows)
open Runs

variable {tiers : ModelTier}

/-! ## Founding a family -/

/-- The overrides of the knobs, clamped. -/
def CreateFamily.overrides (req : CreateFamily) : KnobMap :=
  req.parentKnobOverrides.map fun kv => (kv.1, clampKnob kv.2)

/-- A persona with the overrides. -/
def CreateFamily.overridden (req : CreateFamily) (p : PersonaModel) : PersonaModel :=
  { p with knobs := fun k => (req.overrides.lookup k).getD (p.knobs k) }

/-- A given persona after `create_family`. -/
def CreateFamily.edited (tiers : ModelTier) (req : CreateFamily) (p : PersonaModel) : PersonaModel :=
  { req.overridden p with model := tiers.forRole "parent" req.roleLabel }

/-- The given persona, where it is not left aside for a given agent. -/
def CreateFamily.given (req : CreateFamily) : Option PersonaId :=
  match req.parentAgentId with
  | some _ => none
  | none => req.personaId

/-- The tables of personas as the API sees them. -/
def Store.registry (s : Store) (versions : List PersonaVersionModel) : Registry :=
  ⟨s.personas, versions, s.fresh⟩

section
variable {s u t : Store} {req : CreateFamily} {versions : List PersonaVersionModel} {persona : PersonaModel}

/-- `t` is `s` after a family was founded: a given persona is edited, ids are taken, a persona may be new. -/
structure Founded (tiers : ModelTier) (req : CreateFamily) (s t : Registry) : Prop where
  filed : t.Filed
  versions : t.versions = s.versions
  get : ∀ id, id < s.fresh →
    t.get id = if req.given = some id then (s.get id).map (req.edited tiers) else s.get id

/-- A persona made for the family. -/
theorem founded_new (hs : (s.registry versions).Filed) (hgiven : req.given = none)
    (hid : persona.id = s.fresh) {f : PersonaModel → PersonaModel} (hf : ∀ p, (f p).id = p.id) :
    Founded tiers req (s.registry versions) (((s.registry versions).append persona).set persona.id f) where
  filed := (hs.append hid).set hf
  versions := rfl
  get := by
    intro id hlt
    have hne : id ≠ persona.id := fun heq => hlt.ne (heq.trans hid)
    have hold : id ≠ (s.registry versions).fresh := hlt.ne
    rw [Persona.Registry.get_set hf, if_neg hne, Persona.Registry.get_append hs.bounded hid, if_neg hold]
    rw [if_neg (by rw [hgiven]; simp)]

/-- A given persona: the overrides, then the model. -/
theorem founded_given (hs : (s.registry versions).Filed) (hgiven : req.given = some persona.id)
    {f g : PersonaModel → PersonaModel} (hf : ∀ p, (f p).id = p.id) (hg : ∀ p, (g p).id = p.id)
    (hedited : ∀ p, g (f p) = req.edited tiers p) :
    Founded tiers req (s.registry versions)
      (((s.registry versions).set persona.id f).set persona.id g) where
  filed := (hs.set hf).set hg
  versions := rfl
  get := by
    intro id _
    rw [Persona.Registry.get_set hg, Persona.Registry.get_set hf, hgiven]
    by_cases hid : id = persona.id
    · rw [if_pos hid, if_pos hid, if_pos (congrArg some hid.symm), Option.map_map]
      exact congrArg (Option.map · _) (funext hedited)
    · have hne : some persona.id ≠ some id := fun heq => hid (Option.some.inj heq).symm
      rw [if_neg hid, if_neg hid, if_neg hne]

/-- The persona of a new parent, with the model set on its row. -/
theorem parentPersona_founded (hs : (s.registry versions).Filed) (hagent : req.parentAgentId = none)
    (h : parentPersona s req req.overrides = some (persona, u)) :
    Founded tiers req (s.registry versions)
      ((u.registry versions).set persona.id fun p =>
        { p with model := tiers.forRole "parent" req.roleLabel }) := by
  have hgiven : req.given = req.personaId := by
    unfold CreateFamily.given
    rw [hagent]
  unfold parentPersona at h
  split at h
  · next hnone =>
      obtain ⟨rfl, rfl⟩ := Prod.mk.inj (Option.some.inj h)
      exact founded_new hs (hgiven.trans hnone) rfl fun _ => rfl
  · next id hsome =>
      obtain ⟨persona, hget, h⟩ := Option.bind_eq_some_iff.mp h
      obtain ⟨rfl, rfl⟩ := Prod.mk.inj (Option.some.inj h)
      obtain rfl : persona.id = id := Table.key_of_find? hget
      exact founded_given hs (hgiven.trans hsome) (fun _ => rfl) (fun _ => rfl) fun _ => rfl

/-- Ids that are taken for rows of other tables. -/
theorem Founded.later {r r' : Registry} (h : Founded tiers req r r') {n : ℕ} (hn : r'.fresh ≤ n) :
    Founded tiers req r { r' with fresh := n } where
  filed := ⟨fun p hp => (h.filed.bounded p hp).trans_le hn,
    fun v hv => (h.filed.versions_lt v hv).trans_le hn, h.filed.numbered⟩
  versions := h.versions
  get := h.get

/-- **What `create_family` does to the personas.** -/
theorem createFamily_founded {now : Time} {family : FamilyId} (hs : (s.registry versions).Filed)
    (h : createFamily tiers s req now = some (family, t)) :
    Founded tiers req (s.registry versions) (t.registry versions) := by
  obtain ⟨district, -, h⟩ := Option.bind_eq_some_iff.mp h
  obtain ⟨⟨agent, r⟩, hagent, h⟩ := Option.bind_eq_some_iff.mp h
  obtain ⟨maxAgeTicks, -, h⟩ := Option.bind_eq_some_iff.mp h
  obtain ⟨-, rfl⟩ := Prod.mk.inj (Option.some.inj h)
  suffices hparent : Founded tiers req (s.registry versions) (r.registry versions) from
    hparent.later (Nat.le_add_right r.fresh 2)
  unfold parentAgent at hagent
  split at hagent
  · next id hsome =>
      obtain ⟨a, -, hagent⟩ := Option.bind_eq_some_iff.mp hagent
      obtain ⟨-, rfl⟩ := Prod.mk.inj (Option.some.inj hagent)
      refine ⟨hs, rfl, fun id _ => ?_⟩
      have hgiven : req.given = none := by
        unfold CreateFamily.given
        rw [hsome]
      rw [if_neg (by rw [hgiven]; simp)]
  · next hnone =>
      obtain ⟨⟨persona, u⟩, hpersona, hagent⟩ := Option.bind_eq_some_iff.mp hagent
      obtain ⟨profile, -, hagent⟩ := Option.bind_eq_some_iff.mp hagent
      obtain ⟨-, rfl⟩ := Prod.mk.inj (Option.some.inj hagent)
      exact (parentPersona_founded hs hnone hpersona).later (Nat.le_succ _)

/-- The request goes through with this persona given: its arguments can be read, and the persona with the
overrides validates as a profile. -/
def CreateFamily.Accepts (req : CreateFamily) (p : PersonaModel) : Prop :=
  (CityDistrict.ofName? req.defaultDistrict).isSome ∧ (readPatch req.policy.maxAgeTicks).isSome ∧
  (req.overridden p).profileFields.Valid

instance (req : CreateFamily) (p : PersonaModel) : Decidable (req.Accepts p) :=
  inferInstanceAs (Decidable (_ ∧ _ ∧ _))

theorem CreateFamily.given_eq_some {id : PersonaId} (h : req.given = some id) :
    req.parentAgentId = none ∧ req.personaId = some id := by
  unfold CreateFamily.given at h
  split at h
  · cases h
  · next hagent => exact ⟨hagent, h⟩

/-- The founder is made unless the persona with the overrides does not validate. -/
theorem parentAgent_isSome_iff {tags : List String} {id : PersonaId} (hgiven : req.given = some id)
    (hget : s.getPersona id = some persona) :
    (parentAgent tiers s req req.overrides tags).isSome ↔ (req.overridden persona).profileFields.Valid := by
  obtain ⟨hagent, hid⟩ := CreateFamily.given_eq_some hgiven
  have hpersona : parentPersona s req req.overrides =
      some (req.overridden persona, s.setPersona id req.overridden) := by
    unfold parentPersona
    rw [hid]
    show (s.getPersona id).bind _ = _
    rw [hget]
    rfl
  unfold parentAgent
  rw [hagent]
  show ((parentPersona s req req.overrides).bind _).isSome ↔ _
  rw [hpersona, ← PersonaModel.toProfile_isSome]
  show ((req.overridden persona).toProfile.bind _).isSome ↔ _
  cases (req.overridden persona).toProfile with
  | none => rfl
  | some profile => exact iff_of_true rfl rfl

/-- With a persona given, `create_family` succeeds on the requests that are accepted with it. -/
theorem createFamily_isSome_iff {now : Time} {id : PersonaId} (hgiven : req.given = some id)
    (hget : s.getPersona id = some persona) :
    (createFamily tiers s req now).isSome ↔ req.Accepts persona := by
  have hparent : (parentAgent tiers s req req.overrides (req.toolTags.getD defaultCityToolTags)).isSome ↔ _ :=
    parentAgent_isSome_iff hgiven hget
  unfold CreateFamily.Accepts
  rw [← hparent]
  show ((CityDistrict.ofName? req.defaultDistrict).bind _).isSome ↔ _
  cases CityDistrict.ofName? req.defaultDistrict with
  | none => exact iff_of_false (by simp) (by simp)
  | some district =>
      show ((parentAgent tiers s req req.overrides _).bind _).isSome ↔ _
      cases parentAgent tiers s req req.overrides (req.toolTags.getD defaultCityToolTags) with
      | none => exact iff_of_false (by simp) (by simp)
      | some founder =>
          show ((readPatch req.policy.maxAgeTicks).bind _).isSome ↔ _
          cases readPatch req.policy.maxAgeTicks with
          | none => exact iff_of_false (by simp) (by simp)
          | some maxAge => exact iff_of_true rfl ⟨rfl, rfl, rfl⟩

/-! ## The history -/

/-- The family leaves the persona the knobs and the model it has. -/
def CreateFamily.Keeps (tiers : ModelTier) (req : CreateFamily) (p : PersonaModel) : Prop :=
  (∀ k ∈ Persona.Knob.fields, (req.overrides.lookup k).getD (p.knobs k) = p.knobs k) ∧
  tiers.forRole "parent" req.roleLabel = p.model

instance (req : CreateFamily) (p : PersonaModel) : Decidable (req.Keeps tiers p) :=
  inferInstanceAs (Decidable (_ ∧ _))

theorem CreateFamily.keeps_iff : req.Keeps tiers persona ↔
    (req.edited tiers persona).knobs = persona.knobs ∧
    (req.edited tiers persona).settingsValues = persona.settingsValues := by
  constructor
  · rintro ⟨hknobs, hmodel⟩
    refine ⟨funext fun k => hknobs k k.mem_fields, ?_⟩
    show ({ persona.settingsValues with model := tiers.forRole "parent" req.roleLabel } : Persona.Settings) = _
    rw [hmodel]
    rfl
  · rintro ⟨hknobs, hsettings⟩
    exact ⟨fun k _ => congrFun hknobs k, congrArg Persona.Settings.model hsettings⟩

/-- **The history of a given persona** ends with its row exactly when the family keeps its values. -/
theorem Founded.documented_iff {r r' : Registry} (h : Founded tiers req r r') (hr : r.Filed)
    (hdoc : r.Documented) :
    r'.Documented ↔ ∀ id persona, req.given = some id → r.get id = some persona → r.versionsOf id ≠ [] →
      req.Keeps tiers persona := by
  rw [Persona.Registry.documented_iff hr] at hdoc
  rw [Persona.Registry.documented_iff h.filed]
  have hversions : ∀ id, r'.versionsOf id = r.versionsOf id := by
    intro id
    unfold Persona.Registry.versionsOf
    rw [h.versions]
  constructor
  · intro hshows id persona hgiven hget hne
    have hlt : id < r.fresh := by
      by_contra hge
      exact hne (Persona.Registry.versionsOf_eq_nil hr (not_lt.mp hge))
    obtain ⟨v, hlast⟩ := Option.ne_none_iff_exists'.mp (mt List.getLast?_eq_none_iff.mp hne)
    have hbefore := hdoc id persona hget v hlast
    have hget' : r'.get id = some (req.edited tiers persona) := by
      rw [h.get id hlt, if_pos hgiven, hget]
      rfl
    have hafter := hshows id _ hget' v (hversions id ▸ hlast)
    exact CreateFamily.keeps_iff.mpr ⟨hafter.1.symm.trans hbefore.1, hafter.2.symm.trans hbefore.2⟩
  · intro hkeeps id p hp v hlast
    rw [hversions] at hlast
    have hne : r.versionsOf id ≠ [] := List.ne_nil_of_mem (List.mem_of_getLast? hlast)
    have hlt : id < r.fresh := by
      by_contra hge
      exact hne (Persona.Registry.versionsOf_eq_nil hr (not_lt.mp hge))
    rw [h.get id hlt] at hp
    split at hp
    · next hgiven =>
        obtain ⟨persona, hget, rfl⟩ := Option.map_eq_some_iff.mp hp
        obtain ⟨hknobs, hsettings⟩ := CreateFamily.keeps_iff.mp (hkeeps id persona hgiven hget hne)
        obtain ⟨hk, hst⟩ := hdoc id persona hget v hlast
        exact ⟨hk.trans hknobs.symm, hst.trans hsettings.symm⟩
    · exact hdoc id p hp v hlast

end

/-! ## Runs -/

/-- The city, and the versions of its personas. -/
structure Chronicle where
  city : Store
  versions : List PersonaVersionModel

/-- The tables of personas. -/
def Chronicle.registry (c : Chronicle) : Registry := c.city.registry c.versions

/-- A write of the API to the tables of personas. -/
def Chronicle.write (c : Chronicle) (r : Registry) : Chronicle where
  city := { c.city with personas := r.personas, fresh := r.fresh }
  versions := r.versions

/-- The requests that write personas. -/
inductive ChronicleOp
  | edit (e : Edit)
  | createFamily (req : CreateFamily) (now : Time)

/-- The commit of `create_family`; when it raised there is nothing to commit. -/
def Chronicle.commit (c : Chronicle) : Option (FamilyId × Store) → Chronicle
  | some (_, city) => { c with city }
  | none => c

/-- The personas of the API and of the city, and what each of these requests makes of them. -/
def chronicle (tiers : ModelTier) : System Chronicle ChronicleOp where
  init c := c.registry.Bounded ∧ c.versions = []
  step c
    | .edit e => some (c.write (e.run c.registry))
    | .createFamily req now => some (c.commit (createFamily tiers c.city req now))

/-- A family that is given a persona with a history leaves its values as they are. -/
def keepsHistory (tiers : ModelTier) (c : Chronicle) : ChronicleOp → Prop
  | .edit _ => True
  | .createFamily req _ => ∀ id ∈ req.given, ∀ persona ∈ c.registry.get id,
      req.Accepts persona → c.registry.versionsOf id ≠ [] → req.Keeps tiers persona

instance (c : Chronicle) (op : ChronicleOp) : Decidable (keepsHistory tiers c op) :=
  match op with
  | .edit _ => inferInstanceAs (Decidable True)
  | .createFamily req _ => inferInstanceAs (Decidable (∀ id ∈ req.given, ∀ persona ∈ c.registry.get id,
      req.Accepts persona → c.registry.versionsOf id ≠ [] → req.Keeps tiers persona))

theorem registry_write (c : Chronicle) (r : Registry) : (c.write r).registry = r := rfl

/-- **One request** keeps the tables filed, and the histories exactly when it meets the condition. -/
theorem documented_step_iff {c c' : Chronicle} {op : ChronicleOp} (hc : c.registry.Filed)
    (hdoc : c.registry.Documented) (h : (chronicle tiers).step c op = some c') :
    c'.registry.Filed ∧ (c'.registry.Documented ↔ keepsHistory tiers c op) := by
  cases op with
  | edit e =>
      obtain rfl : c.write (e.run c.registry) = c' := Option.some.inj h
      rw [registry_write]
      exact ⟨Persona.Registry.filed_run hc e,
        iff_of_true (Persona.Registry.documented_run hc hdoc e) trivial⟩
  | createFamily req now =>
      obtain rfl : c.commit (createFamily tiers c.city req now) = c' := Option.some.inj h
      cases hcreate : createFamily tiers c.city req now with
      | none =>
          refine ⟨hc, iff_of_true hdoc ?_⟩
          -- the request is refused
          intro id hgiven persona hget haccepts
          have hsome : (createFamily tiers c.city req now).isSome :=
            (createFamily_isSome_iff hgiven hget).mpr haccepts
          rw [hcreate] at hsome
          cases hsome
      | some created =>
          obtain ⟨family, city⟩ := created
          have hfounded : Founded tiers req c.registry (city.registry c.versions) :=
            createFamily_founded hc hcreate
          refine ⟨hfounded.filed, (hfounded.documented_iff hc hdoc).trans ?_⟩
          constructor
          · intro hkeeps id hgiven persona hget _ hne
            exact hkeeps id persona hgiven hget hne
          · intro hkeeps id persona hgiven hget hne
            have haccepts : req.Accepts persona := by
              apply (createFamily_isSome_iff hgiven hget).mp
              rw [hcreate]
              rfl
            exact hkeeps id hgiven persona hget haccepts hne

/-- Before the first request no persona has a version. -/
theorem filed_init {c : Chronicle} (h : (chronicle tiers).init c) : c.registry.Filed := by
  obtain ⟨hbounded, hversions⟩ := h
  have hnone : c.registry.versions = [] := hversions
  refine ⟨hbounded, fun v hv => ?_, fun id => ?_⟩
  · rw [hnone] at hv
    cases hv
  · unfold Persona.Registry.versionsOf
    rw [hnone]
    exact Numbered.nil

theorem documented_init {c : Chronicle} (h : (chronicle tiers).init c) : c.registry.Documented := by
  rw [Persona.Registry.documented_iff (filed_init h)]
  intro id persona _ v hlast
  have hnone : c.registry.versions = [] := h.2
  unfold Persona.Registry.versionsOf at hlast
  rw [hnone] at hlast
  cases hlast

/-- **Every history is right after every request of a run exactly when no family of it changes a persona that
has one.** -/
theorem documented_throughout_iff {c₀ c : Chronicle} {ops : List ChronicleOp}
    (h₀ : (chronicle tiers).init c₀) (h : (chronicle tiers).exec c₀ ops = some c) :
    (chronicle tiers).Throughout (·.registry.Documented) c₀ ops ↔
      (chronicle tiers).Meets (keepsHistory tiers) c₀ ops :=
  System.throughout_iff (fun _ _ _ hfiled hdoc hstep => documented_step_iff hfiled hdoc hstep)
    (filed_init h₀) (documented_init h₀) h

/-- Nothing yet. -/
def emptyChronicle : Chronicle := ⟨⟨[], [], [], [], [], 0⟩, []⟩

theorem init_emptyChronicle : (chronicle tiers).init emptyChronicle :=
  ⟨fun _ hp => absurd hp List.not_mem_nil, rfl⟩

/-- A persona is created and changed to a preset. -/
def edits : List ChronicleOp :=
  [.edit (.createPersona (Persona.defaultPresets .creative)), .edit (.applyPreset 0 .technical)]

/-- One family with a persona of its own, one with the persona of the API and the knob it has. -/
def foundings : List ChronicleOp :=
  [.createFamily { name := "First", parentKnobOverrides := [(.humor, 4/5)] } 1,
   .createFamily { name := "Second", personaId := some 0, parentKnobOverrides := [(.humor, 1/5)] } 2]

/-- With the model of the persona as the model of parents, its history is right all along. -/
theorem documented_foundings : (chronicle ⟨"llama3:8b", "llama3:8b"⟩).Throughout (·.registry.Documented)
    emptyChronicle (edits ++ foundings) := by
  have hex : (((chronicle ⟨"llama3:8b", "llama3:8b"⟩).exec emptyChronicle (edits ++ foundings)).any
      fun _ => true) = true := by
    decide +kernel
  obtain ⟨c, hrun, -⟩ := System.exists_of_exec hex
  exact (documented_throughout_iff init_emptyChronicle hrun).mpr (by decide +kernel)

/-- **A family is given a persona and an override**: no version has the new knob. -/
theorem createFamily_unrecorded : ¬ ∀ tiers c₀ ops c, (chronicle tiers).init c₀ →
    (chronicle tiers).exec c₀ ops = some c → c.registry.Documented := by
  intro hall
  have hex : (((chronicle ⟨"llama3:8b", "llama3:8b"⟩).exec emptyChronicle (edits ++
      [.createFamily { name := "First", personaId := some 0,
                       parentKnobOverrides := [(.creativity, 1)] } 1])).any fun c =>
      (c.registry.get 0).any fun p => (c.registry.versionsOf 0).any fun v =>
        decide (v.versionNumber = (c.registry.versionsOf 0).length ∧
          v.knobSnapshot .creativity ≠ p.knobs .creativity)) = true := by
    decide +kernel
  obtain ⟨c, hrun, hp⟩ := System.exists_of_exec hex
  obtain ⟨p, hget, hv⟩ := (Option.any_eq_true ..).mp hp
  obtain ⟨v, hmem, hv⟩ := List.any_eq_true.mp hv
  obtain ⟨hlast, hne⟩ := of_decide_eq_true hv
  obtain ⟨-, hrow⟩ := hall _ _ _ c init_emptyChronicle hrun 0 p hget
  exact hne (congrFun (hrow v hmem hlast).1 .creativity)

end Persola.City
