import Persola.City.Life
import Persola.Lib.Select
import Persola.Persona.Cyrex
import Mathlib.Data.List.Pairwise
import Mathlib.Data.Nat.ModEq
import Mathlib.Tactic.NormNum

/-!
# `City.Personalities` — the personalities of the children of a city

`distinct_child_personality` folds the index of a family and of a child into one seed and makes twelve knobs from it,
each by a remainder; the role is the remainder of the child's index. Two children have the same knobs exactly if their
roles and, up to the least common multiple of the moduli that count, their seeds are the same (`unique_iff`). What is
made of SHA-256 is a parameter, and arithmetic is exact.
-/

namespace Persola.City

open Persona (Knob)

namespace Personalities

/-! ## Roles -/

/-- `ROLE_CYCLE`. -/
def roleCycle : List String := ["analyst", "creative", "executor", "empath", "builder"]

/-- `_archetype_knobs`: the overrides of `BUILTIN_ARCHETYPES`, and those of a builder. -/
def archetypeKnobs : String → KnobMap
  | "builder" =>
      [(.creativity, 75/100), (.conscientiousness, 85/100), (.reliability, 9/10), (.stepByStep, 8/10),
        (.accuracy, 85/100), (.verbosity, 4/10)]
  | "coordinator" =>
      [(.conscientiousness, 9/10), (.stepByStep, 85/100), (.verbosity, 55/100), (.agreeableness, 75/100)]
  | "analyst" => [(.reasoningDepth, 95/100), (.accuracy, 95/100), (.stepByStep, 9/10), (.abstraction, 6/10)]
  | "creative" => [(.creativity, 95/100), (.creativityInReasoning, 9/10), (.openness, 9/10), (.humor, 55/100)]
  | "executor" =>
      [(.conscientiousness, 85/100), (.verbosity, 45/100), (.reliability, 9/10), (.confidence, 8/10)]
  | "empath" => [(.empathy, 95/100), (.agreeableness, 9/10), (.transparency, 8/10), (.formality, 45/100)]
  | _ => []

/-- `DIVERSITY_KNOBS`. -/
def diversityKnobs : List Knob :=
  [.creativity, .humor, .formality, .verbosity, .empathy, .confidence, .openness, .extraversion, .agreeableness,
    .reasoningDepth, .accuracy, .caution]

/-- `_clamp`. -/
def clamp (value : ℚ) : ℚ := max 0 (min 1 (Py.round 4 value))

/-! ## A child -/

/-- A child: the index of the family, and its own. -/
structure Child where
  familyIndex : ℕ
  childIndex : ℕ
deriving DecidableEq

attribute [ext] Child

namespace Child

variable (child : Child)

/-- The role of a child. -/
def role : String := roleCycle.get ⟨child.childIndex % 5, Nat.mod_lt _ (by decide)⟩

/-- The seed of its knobs. -/
def seed : ℕ := child.childIndex * 17 + child.familyIndex * 31

/-- A knob of the walk, at its place, from what the archetype has for it. -/
def walked (i : ℕ) (base : Option ℚ) : ℚ :=
  let wave : ℚ := ((child.seed * (i + 3) + i * 19) % 83 : ℕ) / 83
  clamp (base.getD (1/2) * (45/100) + (12/100 + wave * (83/100)) * (55/100))

/-- The salt on creativity. -/
def creativity : ℚ := clamp (15/100 + (child.seed * 7 % 80 : ℕ) / 100)

/-- The salt on empathy. -/
def empathy : ℚ := clamp (18/100 + ((child.seed * 11 + 5) % 78 : ℕ) / 100)

/-- `knob_overrides` of `distinct_child_personality`. -/
def knobs : KnobMap :=
  let walk := diversityKnobs.zipIdx.foldl
    (fun knobs e => Py.setItem knobs e.1 (child.walked e.2 (Py.getItem knobs e.1))) (archetypeKnobs child.role)
  Py.setItem (Py.setItem walk .creativity child.creativity) .empathy child.empathy

end Child

/-! ## The personality -/

section
variable {δ : Type*} (digest : List (String × ℚ) → δ)

/-- The entries a fingerprint is made of. -/
def items (knobs : KnobMap) : List (String × ℚ) :=
  Select.orderBy Prod.fst (knobs.map fun kv => (kv.1.key, Py.round 4 kv.2))

/-- `personality_fingerprint`. -/
def personalityFingerprint (knobs : KnobMap) : δ := digest (items knobs)

/-- What `distinct_child_personality` returns. -/
structure Personality (δ : Type*) where
  roleLabel : String
  knobOverrides : KnobMap
  fingerprint : δ
  topTraits : KnobMap

/-- `distinct_child_personality`. -/
def distinctChildPersonality (child : Child) : Personality δ where
  roleLabel := child.role
  knobOverrides := child.knobs
  fingerprint := personalityFingerprint digest child.knobs
  topTraits := (Select.orderByDesc (fun kv => |kv.2 - 1/2|) child.knobs).take 5

/-- The families and the agents of each that `scale_probe` makes. -/
def probeSize (mode : String) (families agentsPerFamily : Option ℤ) : ℕ × ℕ :=
  let families := families.getD (if Py.strip (lower (Py.orElse (some mode) "fifty")) = "hundred" then 10 else 5)
  (max 1 families |>.toNat, max 2 (agentsPerFamily.getD 10) |>.toNat)

/-- The children of `scale_probe`, family by family. -/
def probeChildren (mode : String) (families agentsPerFamily : Option ℤ) : List Child :=
  let (nFamilies, perFamily) := probeSize mode families agentsPerFamily
  (List.range nFamilies).flatMap fun i => (List.range (max 1 (perFamily - 1))).map fun c => ⟨i, c⟩

end

/-! ## Knobs by name -/

section
variable {k : Knob} {child other : Child}

/-- A walk over different knobs sets each from what was there before. -/
theorem getItem_walk {f : ℕ → Option ℚ → ℚ} {l : List (Knob × ℕ)} (hl : (l.map Prod.fst).Nodup) (d : KnobMap) :
    Py.getItem (l.foldl (fun knobs e => Py.setItem knobs e.1 (f e.2 (Py.getItem knobs e.1))) d) k =
      match l.find? (·.1 = k) with
      | some e => some (f e.2 (Py.getItem d k))
      | none => Py.getItem d k := by
  induction l generalizing d with
  | nil => rfl
  | cons e l ih =>
      obtain ⟨hnew, hl⟩ := List.nodup_cons.mp hl
      rw [List.foldl_cons, ih hl, Py.getItem_setItem]
      by_cases he : e.1 = k
      · have hnone : l.find? (·.1 = k) = none := by
          refine List.find?_eq_none.mpr fun e' he' heq => hnew ?_
          exact he ▸ of_decide_eq_true heq ▸ List.mem_map_of_mem he'
        rw [List.find?_cons_of_pos (by simpa using he), hnone, if_pos he, he]
      · rw [List.find?_cons_of_neg (by simpa using he), if_neg he]

/-- A knob of a child: with salt, walked to, or as the archetype has it. -/
theorem getItem_knobs : Py.getItem child.knobs k =
    if k = .empathy then some child.empathy
    else if k = .creativity then some child.creativity
    else
      match diversityKnobs.zipIdx.find? (·.1 = k) with
      | some e => some (child.walked e.2 (Py.getItem (archetypeKnobs child.role) k))
      | none => Py.getItem (archetypeKnobs child.role) k := by
  have hkeys : (diversityKnobs.zipIdx.map Prod.fst).Nodup := by decide
  unfold Child.knobs
  dsimp only
  rw [Py.getItem_setItem, Py.getItem_setItem, getItem_walk hkeys]
  simp only [eq_comm]

/-- What has four digits and lies between zero and one is kept. -/
theorem clamp_eq {n : ℤ} (h0 : 0 ≤ n) (h1 : n ≤ 10000) : clamp (n / 10000) = n / 10000 := by
  have hround : Py.round 4 ((n : ℚ) / 10000) = n / 10000 := by
    have hmultiple := Py.round_of_multiple 4 n
    norm_num at hmultiple
    exact hmultiple
  have h0 : (0 : ℚ) ≤ n / 10000 := div_nonneg (by exact_mod_cast h0) (by norm_num)
  have h1 : (n : ℚ) / 10000 ≤ 1 := by
    rw [div_le_one (by norm_num)]
    exact_mod_cast h1
  rw [clamp, hround, min_eq_right h1, max_eq_right h0]

/-- What is made of a remainder, in hundredths on top of a base, is made of it alone. -/
theorem clamp_mod_eq_iff {b n : ℕ} (hn : 0 < n) (hb : b + n ≤ 101) (x y : ℕ) :
    clamp (b / 100 + (x % n : ℕ) / 100) = clamp (b / 100 + (y % n : ℕ) / 100) ↔ x ≡ y [MOD n] := by
  have hvalue (x : ℕ) : clamp (b / 100 + (x % n : ℕ) / 100) = ((100 * b + 100 * (x % n : ℕ) : ℤ) : ℚ) / 10000 := by
    have hlt := Nat.mod_lt x hn
    generalize x % n = rest at hlt ⊢
    rw [← clamp_eq (by omega) (by omega)]
    congr 1
    push_cast
    ring
  rw [hvalue, hvalue, div_left_inj' (by norm_num), Int.cast_inj, Nat.ModEq]
  omega

theorem creativity_eq_iff : child.creativity = other.creativity ↔ child.seed ≡ other.seed [MOD 80] := by
  have hmod := clamp_mod_eq_iff (b := 15) (n := 80) (by norm_num) (by norm_num) (child.seed * 7) (other.seed * 7)
  rw [Child.creativity, Child.creativity, ← Nat.cast_ofNat (n := 15), hmod, Nat.ModEq, Nat.ModEq]
  omega

theorem empathy_eq_iff : child.empathy = other.empathy ↔ child.seed ≡ other.seed [MOD 78] := by
  have hmod := clamp_mod_eq_iff (b := 18) (n := 78) (by norm_num) (by norm_num) (child.seed * 11 + 5) (other.seed * 11 + 5)
  rw [Child.empathy, Child.empathy, ← Nat.cast_ofNat (n := 18), hmod, Nat.ModEq, Nat.ModEq]
  omega

/-- The walk to humor, from the base of an archetype. -/
theorem walked_humor_iff {base : Option ℚ} (hbase : base = none ∨ base = some (55/100)) :
    child.walked 1 base = other.walked 1 base ↔ child.seed ≡ other.seed [MOD 83] := by
  have hvalue (b : ℤ) (hb : base.getD (1/2) * (45/100) = (b : ℚ) / 10000) (h0 : 0 ≤ b) (h1 : b ≤ 4500) (c : Child) :
      c.walked 1 base = ((b + 660 + 55 * ((c.seed * (1 + 3) + 1 * 19) % 83 : ℕ) : ℤ) : ℚ) / 10000 := by
    have hlt := Nat.mod_lt (c.seed * (1 + 3) + 1 * 19) (by norm_num : 83 > 0)
    rw [Child.walked, hb]
    generalize (c.seed * (1 + 3) + 1 * 19) % 83 = rest at hlt ⊢
    rw [← clamp_eq (n := b + 660 + 55 * (rest : ℕ)) (by omega) (by omega)]
    congr 1
    push_cast
    ring
  obtain ⟨b, hb, h0, h1⟩ : ∃ b : ℤ, base.getD (1/2) * (45/100) = (b : ℚ) / 10000 ∧ 0 ≤ b ∧ b ≤ 4500 := by
    rcases hbase with rfl | rfl
    · exact ⟨2250, by norm_num, by norm_num, by norm_num⟩
    · exact ⟨2475, by norm_num, by norm_num, by norm_num⟩
  rw [hvalue b hb h0 h1, hvalue b hb h0 h1, div_left_inj' (by norm_num), Int.cast_inj, Nat.ModEq]
  omega

/-- The walk only sees the seed up to 83. -/
theorem walked_congr (h : child.seed ≡ other.seed [MOD 83]) (i : ℕ) (base : Option ℚ) :
    child.walked i base = other.walked i base := by
  have hwave : (child.seed * (i + 3) + i * 19) % 83 = (other.seed * (i + 3) + i * 19) % 83 :=
    (h.mul_right _).add_right _
  unfold Child.walked
  rw [hwave]

/-! ## Who is the same -/

/-- The two dictionaries have the same knobs. -/
def SameKnobs (a b : KnobMap) : Prop := ∀ k, Py.getItem a k = Py.getItem b k

/-- The children have one role, and seeds that the moduli cannot tell apart: `258960 = lcm (80, 78, 83)`. -/
def Collide (child other : Child) : Prop :=
  child.childIndex ≡ other.childIndex [MOD 5] ∧ child.seed ≡ other.seed [MOD 258960]

instance : Decidable (Collide child other) := inferInstanceAs (Decidable (_ ∧ _))

theorem role_congr (h : child.childIndex ≡ other.childIndex [MOD 5]) : child.role = other.role := by
  unfold Child.role
  congr 2

/-- The knobs that are not walked tell the roles apart. -/
theorem roles_differ : ∀ i j : Fin 5, (∀ k ∈ [Knob.stepByStep, .abstraction, .creativityInReasoning, .transparency],
    Py.getItem (archetypeKnobs (roleCycle.get i)) k = Py.getItem (archetypeKnobs (roleCycle.get j)) k) → i = j := by
  decide +kernel

theorem humor_base (child : Child) : Py.getItem (archetypeKnobs child.role) .humor = none ∨
    Py.getItem (archetypeKnobs child.role) .humor = some (55/100) := by
  have hall : ∀ i : Fin 5, Py.getItem (archetypeKnobs (roleCycle.get i)) .humor = none ∨
      Py.getItem (archetypeKnobs (roleCycle.get i)) .humor = some (55/100) := by decide +kernel
  exact hall _

/-- **Two children have the same knobs** exactly if they collide. -/
theorem sameKnobs_iff : SameKnobs child.knobs other.knobs ↔ Collide child other := by
  constructor
  · intro h
    have hrole : child.childIndex ≡ other.childIndex [MOD 5] := by
      refine Fin.mk.inj (roles_differ ⟨_, Nat.mod_lt _ (by decide)⟩ ⟨_, Nat.mod_lt _ (by decide)⟩ fun k hk => ?_)
      have hfixed : ∀ k ∈ [Knob.stepByStep, .abstraction, .creativityInReasoning, .transparency],
          k ≠ .empathy ∧ k ≠ .creativity ∧ diversityKnobs.zipIdx.find? (·.1 = k) = none := by decide
      obtain ⟨hempathy, hcreativity, hnone⟩ := hfixed k hk
      have hk := h k
      rw [getItem_knobs, getItem_knobs, hnone, if_neg hempathy, if_neg hempathy, if_neg hcreativity,
        if_neg hcreativity] at hk
      exact hk
    have hcreativity := h .creativity
    have hempathy := h .empathy
    have hhumor := h .humor
    rw [getItem_knobs, getItem_knobs] at hcreativity hempathy hhumor
    have h80 := creativity_eq_iff.mp (Option.some.inj hcreativity)
    have h78 := empathy_eq_iff.mp (Option.some.inj hempathy)
    have hwalk : child.walked 1 (Py.getItem (archetypeKnobs child.role) .humor) =
        other.walked 1 (Py.getItem (archetypeKnobs other.role) .humor) := Option.some.inj hhumor
    rw [role_congr hrole] at hwalk
    have h83 := (walked_humor_iff (humor_base other)).mp hwalk
    refine ⟨hrole, ?_⟩
    unfold Nat.ModEq at *
    omega
  · rintro ⟨hrole, hseed⟩ k
    have hmod {n : ℕ} (hn : n ∣ 258960) : child.seed ≡ other.seed [MOD n] := hseed.of_dvd hn
    rw [getItem_knobs, getItem_knobs, creativity_eq_iff.mpr (hmod (by norm_num)),
      empathy_eq_iff.mpr (hmod (by norm_num)), role_congr hrole]
    simp only [walked_congr (hmod (by norm_num))]

/-! ## Fingerprints -/

theorem round_clamp (x : ℚ) : Py.round 4 (clamp x) = clamp x := by
  obtain ⟨n, hn⟩ : ∃ n : ℤ, Py.round 4 x = n / 10 ^ 4 := ⟨_, rfl⟩
  have hmultiple : ∃ m : ℤ, clamp x = m / 10 ^ 4 := by
    unfold clamp
    rw [hn]
    rcases max_choice (0 : ℚ) (min 1 (n / 10 ^ 4)) with h | h
    · exact ⟨0, by rw [h]; norm_num⟩
    · rcases min_choice (1 : ℚ) (n / 10 ^ 4) with h' | h'
      · exact ⟨10000, by rw [h, h']; norm_num⟩
      · exact ⟨n, by rw [h, h']⟩
  obtain ⟨m, hm⟩ := hmultiple
  rw [hm, Py.round_of_multiple]

/-- The knobs have no more than four digits. -/
theorem round_knobs {v : ℚ} (h : Py.getItem child.knobs k = some v) : Py.round 4 v = v := by
  have hbase : ∀ i : Fin 5, ∀ e ∈ archetypeKnobs (roleCycle.get i), Py.round 4 e.2 = e.2 := by decide +kernel
  rw [getItem_knobs] at h
  split at h
  · obtain rfl := Option.some.inj h
    exact round_clamp _
  · split at h
    · obtain rfl := Option.some.inj h
      exact round_clamp _
    · split at h
      · obtain rfl := Option.some.inj h
        exact round_clamp _
      · obtain ⟨e, he, rfl⟩ := Option.map_eq_some_iff.mp h
        exact hbase _ e (List.mem_of_find?_eq_some he)

theorem keys_knobs (child : Child) : (child.knobs.map Prod.fst).Nodup := by
  have hwalk (f : ℕ → Option ℚ → ℚ) (l : List (Knob × ℕ)) (d : KnobMap) (hd : (d.map Prod.fst).Nodup) :
      ((l.foldl (fun knobs e => Py.setItem knobs e.1 (f e.2 (Py.getItem knobs e.1))) d).map Prod.fst).Nodup := by
    induction l generalizing d with
    | nil => exact hd
    | cons e l ih => exact ih _ (Py.keys_setItem hd).1
  have hbase : ∀ i : Fin 5, ((archetypeKnobs (roleCycle.get i)).map Prod.fst).Nodup := by decide +kernel
  exact (Py.keys_setItem (Py.keys_setItem (hwalk _ _ _ (hbase _))).1).1

theorem key_injective : Function.Injective Knob.key := by
  have hfind : ∀ k ∈ Knob.fields, Knob.fields.find? (·.key = k.key) = some k := by decide +kernel
  intro a b h
  have ha := hfind a (Knob.mem_fields a)
  rw [h, hfind b (Knob.mem_fields b)] at ha
  exact (Option.some.inj ha).symm

/-- The entries of a dictionary with no more than four digits. -/
theorem mem_items {d : KnobMap} {v : ℚ} (hd : (d.map Prod.fst).Nodup)
    (hdigits : ∀ k v, Py.getItem d k = some v → Py.round 4 v = v) :
    (k.key, v) ∈ items d ↔ Py.getItem d k = some v := by
  unfold items
  rw [Select.mem_orderBy, List.mem_map]
  constructor
  · rintro ⟨e, he, heq⟩
    obtain ⟨hkey, hround⟩ := Prod.mk.inj heq
    have hget := Py.getItem_of_mem hd he
    rw [key_injective hkey] at hget
    rw [hget, ← hround, hdigits _ _ hget]
  · intro hget
    obtain ⟨e, he, rfl⟩ := Option.map_eq_some_iff.mp hget
    have hk := List.find?_some he
    rw [decide_eq_true_eq] at hk
    exact ⟨e, List.mem_of_find?_eq_some he, by rw [hk, hdigits _ _ hget]⟩

/-- The entries say what the knobs are. -/
theorem items_inj (h : items child.knobs = items other.knobs) : SameKnobs child.knobs other.knobs := by
  intro k
  apply Option.ext
  intro v
  rw [← mem_items (keys_knobs child) fun _ _ => round_knobs, ← mem_items (keys_knobs other) fun _ _ => round_knobs, h]

/-! ## Uniqueness -/

variable {δ : Type*} {digest : List (String × ℚ) → δ}

/-- The children have different knobs and different fingerprints. -/
def Differ (digest : List (String × ℚ) → δ) (child other : Child) : Prop :=
  ¬ SameKnobs (distinctChildPersonality digest child).knobOverrides
      (distinctChildPersonality digest other).knobOverrides ∧
    (distinctChildPersonality digest child).fingerprint ≠ (distinctChildPersonality digest other).fingerprint

/-- The entries that occur. -/
def childItems : Set (List (String × ℚ)) := Set.range fun child : Child => items child.knobs

theorem overrides_eq (child : Child) : (distinctChildPersonality digest child).knobOverrides = child.knobs := by
  rw [distinctChildPersonality]

/-- Children that collide have the same knobs. -/
theorem not_differ (h : Collide child other) : ¬ Differ digest child other := by
  unfold Differ
  rw [overrides_eq, overrides_eq, sameKnobs_iff]
  exact fun hdiffer => hdiffer.1 h

theorem differ_iff (hdigest : Set.InjOn digest childItems) : Differ digest child other ↔ ¬ Collide child other := by
  refine ⟨fun hdiffer h => not_differ h hdiffer, fun h => ?_⟩
  unfold Differ
  rw [overrides_eq, overrides_eq, sameKnobs_iff]
  refine ⟨h, fun heq => h (sameKnobs_iff.mp (items_inj ?_))⟩
  exact hdigest ⟨child, rfl⟩ ⟨other, rfl⟩ heq

theorem Differ.symm (h : Differ digest child other) : Differ digest other child :=
  ⟨fun hsame => h.1 fun k => (hsame k).symm, h.2.symm⟩

theorem nodup_probeChildren (mode : String) (families agentsPerFamily : Option ℤ) :
    (probeChildren mode families agentsPerFamily).Nodup := by
  unfold probeChildren
  refine List.nodup_flatMap.mpr ⟨fun i _ => List.nodup_range.map fun c c' h => (Child.mk.inj h).2, ?_⟩
  refine List.nodup_range.imp fun {i j} hne child hi hj => ?_
  obtain ⟨c, -, rfl⟩ := List.mem_map.mp hi
  obtain ⟨c', -, heq⟩ := List.mem_map.mp hj
  exact hne (Child.mk.inj heq).1.symm

/-- **Every child is unique** exactly if none collides with it, in the whole city and in a probe of any size. -/
theorem unique_iff (hdigest : Set.InjOn digest childItems) :
    (∀ child other : Child, child ≠ other → (Differ digest child other ↔ ¬ Collide child other)) ∧
    ∀ mode families agentsPerFamily, (probeChildren mode families agentsPerFamily).Pairwise (Differ digest) ↔
      ∀ child ∈ probeChildren mode families agentsPerFamily, ∀ other ∈ probeChildren mode families agentsPerFamily,
        child ≠ other → ¬ Collide child other := by
  refine ⟨fun child other _ => differ_iff hdigest, fun mode families agentsPerFamily => ?_⟩
  have hnodup := nodup_probeChildren mode families agentsPerFamily
  generalize probeChildren mode families agentsPerFamily = children at hnodup ⊢
  constructor
  · intro h child hchild other hother hne
    have hsymm : Std.Symm (Differ digest) := ⟨fun _ _ => Differ.symm⟩
    exact (differ_iff hdigest).mp (h.forall hchild hother hne)
  · intro h
    exact hnodup.imp_of_mem fun hchild hother hne => (differ_iff hdigest).mpr (h _ hchild _ hother hne)

/-- Of the first family the first two children differ. -/
theorem unique_firstTwo : Differ id ⟨0, 0⟩ ⟨0, 1⟩ ∧ (probeChildren "fifty" (some 1) (some 3)).Pairwise (Differ id) := by
  obtain ⟨hpairs, hprobe⟩ := unique_iff (Function.injective_id.injOn (s := childItems))
  have hchildren : probeChildren "fifty" (some 1) (some 3) = [⟨0, 0⟩, ⟨0, 1⟩] := by decide +kernel
  refine ⟨(hpairs _ _ (by decide)).mpr (by decide), (hprobe _ _ _).mpr ?_⟩
  rw [hchildren]
  decide

theorem mem_probeChildren {mode : String} {families agentsPerFamily : Option ℤ} {f n : ℕ}
    (hsize : probeSize mode families agentsPerFamily = (f, n)) :
    child ∈ probeChildren mode families agentsPerFamily ↔
      child.familyIndex < f ∧ child.childIndex < max 1 (n - 1) := by
  unfold probeChildren
  rw [hsize]
  obtain ⟨i, c⟩ := child
  rw [List.mem_flatMap]
  constructor
  · rintro ⟨a, ha, hmem⟩
    obtain ⟨b, hb, heq⟩ := List.mem_map.mp hmem
    obtain ⟨rfl, rfl⟩ := Child.mk.inj heq
    exact ⟨List.mem_range.mp ha, List.mem_range.mp hb⟩
  · exact fun ⟨hi, hc⟩ => ⟨i, List.mem_range.mpr hi, List.mem_map.mpr ⟨c, List.mem_range.mpr hc, rfl⟩⟩

/-- **Two children of one kind**: the 156th of the first family and the first of the 86th. -/
theorem not_unique :
    (¬ ∀ child other : Child, child ≠ other → Differ id child other) ∧
    ¬ (probeChildren "fifty" (some 86) (some 157)).Pairwise (Differ id) := by
  have hcollide : Collide ⟨0, 155⟩ ⟨85, 0⟩ := by decide
  have hne : (⟨0, 155⟩ : Child) ≠ ⟨85, 0⟩ := by decide
  have hsize : probeSize "fifty" (some 86) (some 157) = (86, 157) := by decide +kernel
  refine ⟨fun h => not_differ hcollide (h _ _ hne), fun h => ?_⟩
  have hfirst : (⟨0, 155⟩ : Child) ∈ probeChildren "fifty" (some 86) (some 157) :=
    (mem_probeChildren hsize).mpr (by decide)
  have hsecond : (⟨85, 0⟩ : Child) ∈ probeChildren "fifty" (some 86) (some 157) :=
    (mem_probeChildren hsize).mpr (by decide)
  have hsymm : Std.Symm (Differ (id : List (String × ℚ) → _)) := ⟨fun _ _ => Differ.symm⟩
  exact not_differ hcollide (h.forall hfirst hsecond hne)

/-- A probe without many families, or without many children in each, has no two children that collide. -/
theorem not_collide {f n : ℕ} (hsmall : f ≤ 85 ∨ n ≤ 155) (hseeds : 31 * f + 17 * n ≤ 258960)
    (hchild : child.familyIndex < f ∧ child.childIndex < n) (hother : other.familyIndex < f ∧ other.childIndex < n)
    (hne : child ≠ other) : ¬ Collide child other := by
  rintro ⟨hrole, hseed⟩
  have hlt {c : Child} (h : c.familyIndex < f ∧ c.childIndex < n) : c.seed < 258960 := by
    unfold Child.seed
    omega
  have heq : child.childIndex * 17 + child.familyIndex * 31 = other.childIndex * 17 + other.familyIndex * 31 :=
    hseed.eq_of_lt_of_lt (hlt hchild) (hlt hother)
  -- a difference of the indexes of the children is a multiple of 5 and of 31, one of the families of 17 and of 5
  have hfamily : child.familyIndex = other.familyIndex := by
    unfold Nat.ModEq at hrole
    omega
  have hindex : child.childIndex = other.childIndex := by omega
  exact hne (Child.ext hfamily hindex)

/-- **Small probes have unique children.** -/
theorem probe_unique (hdigest : Set.InjOn digest childItems) {mode : String} {families agentsPerFamily : Option ℤ}
    {f n : ℕ} (hsize : probeSize mode families agentsPerFamily = (f, n)) (hsmall : f ≤ 85 ∨ n ≤ 155)
    (hseeds : 31 * f + 17 * n ≤ 258960) : (probeChildren mode families agentsPerFamily).Pairwise (Differ digest) := by
  refine (nodup_probeChildren mode families agentsPerFamily).imp_of_mem fun hchild hother hne => ?_
  have hn : 2 ≤ n := by
    have heq := (Prod.mk.inj hsize).2
    omega
  rw [mem_probeChildren hsize] at hchild hother
  exact (differ_iff hdigest).mpr (not_collide (f := f) (n := n) hsmall hseeds (by omega) (by omega) hne)

end

end Personalities

end Persola.City
