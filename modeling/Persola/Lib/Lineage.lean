import Mathlib.Data.List.Nodup
import Mathlib.Data.Set.Insert
import Mathlib.Logic.Relation
import Mathlib.Tactic.ByContra

/-!
# `Lineage` — registers of kin, founded, born and succeeded

A register lists kin in the order they came into being. Each belongs to a family, is its head or stands
under an earlier member of it, and may be the heir of an earlier member that has died. A register is
**well formed** when every family has exactly one living head, the dead have exactly one heir each and the
living none. The three events — a family is founded, a child is born, a member dies and is succeeded — keep
it so, and a succession does not change how many of a family live.
-/

namespace Lineage

variable {ι φ : Type*} [LinearOrder ι]

/-- One member of one family. -/
structure Kin (ι φ : Type*) where
  id : ι
  family : φ
  head : Bool
  under : Option ι
  heirOf : Option ι
  generation : ℕ
  alive : Bool

variable {l : List (Kin ι φ)} {k p d : Kin ι φ} {i j u : ι}

/-- How many heirs a member has. -/
def heirs (l : List (Kin ι φ)) (i : ι) : ℕ := l.countP fun k => decide (k.heirOf = some i)

/-- The register is in order and every reference goes to an earlier member of the same family. -/
structure Rooted (l : List (Kin ι φ)) : Prop where
  sorted : l.Pairwise fun a b => a.id < b.id
  head_iff : ∀ k ∈ l, k.head = true ↔ k.under = none
  under_earlier : ∀ k ∈ l, ∀ i, k.under = some i → ∃ p ∈ l, p.id = i ∧ p.family = k.family ∧ p.id < k.id
  heirOf_earlier : ∀ k ∈ l, ∀ i, k.heirOf = some i →
    ∃ p ∈ l, p.id = i ∧ p.family = k.family ∧ p.id < k.id ∧ k.generation = p.generation + 1

/-! ## Ancestry -/

/-- `i` refers to `j` through `r`. -/
def Refers (l : List (Kin ι φ)) (r : Kin ι φ → Option ι) (i j : ι) : Prop :=
  ∃ k ∈ l, k.id = i ∧ r k = some j

/-- References that only go backwards never lead back to where they started. -/
theorem acyclic_of_earlier {r : Kin ι φ → Option ι} (h : ∀ i j, Refers l r i j → j < i) (i : ι) :
    ¬ Relation.TransGen (Refers l r) i i := by
  have hlt : ∀ {j}, Relation.TransGen (Refers l r) i j → j < i := by
    intro j hij
    induction hij with
    | single hr => exact h _ _ hr
    | tail _ hr ih => exact lt_trans (h _ _ hr) ih
  exact fun hii => lt_irrefl i (hlt hii)

theorem Rooted.acyclic_under (h : Rooted l) (i : ι) :
    ¬ Relation.TransGen (Refers l (·.under)) i i := by
  refine acyclic_of_earlier ?_ i
  rintro i j ⟨k, hk, rfl, hj⟩
  obtain ⟨p, -, rfl, -, hlt⟩ := h.under_earlier k hk j hj
  exact hlt

theorem Rooted.acyclic_heirOf (h : Rooted l) (i : ι) :
    ¬ Relation.TransGen (Refers l (·.heirOf)) i i := by
  refine acyclic_of_earlier ?_ i
  rintro i j ⟨k, hk, rfl, hj⟩
  obtain ⟨p, -, rfl, -, hlt, -⟩ := h.heirOf_earlier k hk j hj
  exact hlt

/-! ## A newcomer -/

/-- A newcomer fits at the end of the register. -/
structure Follows (l : List (Kin ι φ)) (k : Kin ι φ) : Prop where
  fresh : ∀ p ∈ l, p.id < k.id
  head_iff : k.head = true ↔ k.under = none
  under_mem : ∀ i, k.under = some i → ∃ p ∈ l, p.id = i ∧ p.family = k.family
  heirOf_mem : ∀ i, k.heirOf = some i →
    ∃ p ∈ l, p.id = i ∧ p.family = k.family ∧ k.generation = p.generation + 1

theorem Rooted.snoc (h : Rooted l) (hk : Follows l k) : Rooted (l ++ [k]) where
  sorted := by
    refine List.pairwise_append.mpr ⟨h.sorted, List.pairwise_singleton _ _, ?_⟩
    intro p hp k' hk'
    rw [List.mem_singleton.mp hk']
    exact hk.fresh p hp
  head_iff := by
    intro k' hk'
    rcases List.mem_append.mp hk' with hold | hnew
    · exact h.head_iff k' hold
    · rw [List.mem_singleton.mp hnew]
      exact hk.head_iff
  under_earlier := by
    intro k' hk' i hi
    rcases List.mem_append.mp hk' with hold | hnew
    · obtain ⟨p, hp, hrest⟩ := h.under_earlier k' hold i hi
      exact ⟨p, List.mem_append_left _ hp, hrest⟩
    · obtain rfl := List.mem_singleton.mp hnew
      obtain ⟨p, hp, hid, hfam⟩ := hk.under_mem i hi
      exact ⟨p, List.mem_append_left _ hp, hid, hfam, hk.fresh p hp⟩
  heirOf_earlier := by
    intro k' hk' i hi
    rcases List.mem_append.mp hk' with hold | hnew
    · obtain ⟨p, hp, hrest⟩ := h.heirOf_earlier k' hold i hi
      exact ⟨p, List.mem_append_left _ hp, hrest⟩
    · obtain rfl := List.mem_singleton.mp hnew
      obtain ⟨p, hp, hid, hfam, hgen⟩ := hk.heirOf_mem i hi
      exact ⟨p, List.mem_append_left _ hp, hid, hfam, hk.fresh p hp, hgen⟩

/-- Nobody is the heir of somebody still to come. -/
theorem Rooted.heirs_fresh (h : Rooted l) (hi : ∀ p ∈ l, p.id < i) : heirs l i = 0 := by
  refine List.countP_eq_zero.mpr fun k hk hheir => ?_
  obtain ⟨p, hp, rfl, -⟩ := h.heirOf_earlier k hk i (of_decide_eq_true hheir)
  exact lt_irrefl _ (hi p hp)

theorem Rooted.nodup (h : Rooted l) : (l.map Kin.id).Nodup :=
  List.pairwise_map.mpr (h.sorted.imp fun hlt => hlt.ne)

theorem Rooted.id_injOn (h : Rooted l) (hk : k ∈ l) (hp : p ∈ l) (hid : k.id = p.id) : k = p :=
  List.inj_on_of_nodup_map h.nodup hk hp hid

/-- A newcomer that is nobody's heir leaves the heirs as they are. -/
theorem heirs_snoc (hk : k.heirOf = none) : heirs (l ++ [k]) i = heirs l i := by
  simp [heirs, hk]

/-! ## Succession -/

/-- The member dies. -/
def kill (l : List (Kin ι φ)) (i : ι) : List (Kin ι φ) :=
  l.map fun k => if k.id = i then { k with alive := false } else k

/-- The heir of `d`, under `u` unless it inherits the headship. -/
def heir (d : Kin ι φ) (u i : ι) : Kin ι φ :=
  { id := i, family := d.family, head := d.head, under := if d.head then none else some u
    heirOf := some d.id, generation := d.generation + 1, alive := true }

/-- `d` dies and `i` succeeds it. -/
def succeed (l : List (Kin ι φ)) (d : Kin ι φ) (u i : ι) : List (Kin ι φ) := kill l d.id ++ [heir d u i]

/-- Killing replaces one entry. -/
theorem Rooted.kill_eq (h : Rooted l) (hd : d ∈ l) :
    ∃ l₁ l₂, l = l₁ ++ d :: l₂ ∧ kill l d.id = l₁ ++ { d with alive := false } :: l₂ := by
  obtain ⟨l₁, l₂, rfl⟩ := List.append_of_mem hd
  have hsorted := List.pairwise_append.mp h.sorted
  have hsame : ∀ {m : List (Kin ι φ)}, (∀ k ∈ m, k.id ≠ d.id) → kill m d.id = m := by
    intro m hm
    refine (List.map_congr_left fun k hk => ?_).trans (List.map_id m)
    exact if_neg (hm k hk)
  -- ids increase along the register, so no other entry is touched
  have h₁ : kill l₁ d.id = l₁ := hsame fun k hk => (hsorted.2.2 k hk d (List.mem_cons_self ..)).ne
  have h₂ : kill l₂ d.id = l₂ := hsame fun k hk => ((List.pairwise_cons.mp hsorted.2.1).1 k hk).ne'
  refine ⟨l₁, l₂, rfl, ?_⟩
  unfold kill at h₁ h₂ ⊢
  rw [List.map_append, List.map_cons, h₁, h₂, if_pos rfl]

theorem mem_kill (hk : k ∈ kill l i) :
    ∃ p ∈ l, p.id = k.id ∧ p.family = k.family ∧ p.head = k.head ∧ p.under = k.under ∧
      p.heirOf = k.heirOf ∧ p.generation = k.generation ∧ k.alive = (p.alive && decide (p.id ≠ i)) := by
  obtain ⟨p, hp, rfl⟩ := List.mem_map.mp hk
  refine ⟨p, hp, ?_⟩
  by_cases hid : p.id = i <;> simp [hid]

theorem exists_mem_kill (hp : p ∈ l) :
    ∃ k ∈ kill l i, k.id = p.id ∧ k.family = p.family ∧ k.generation = p.generation := by
  refine ⟨_, List.mem_map.mpr ⟨p, hp, rfl⟩, ?_⟩
  by_cases hid : p.id = i <;> simp [hid]

theorem Rooted.kill (h : Rooted l) : Rooted (kill l i) where
  sorted := by
    refine List.pairwise_map.mpr (h.sorted.imp ?_)
    intro a b hab
    by_cases ha : a.id = i <;> by_cases hb : b.id = i <;> simp [ha, hb] <;> grind
  head_iff := by
    intro k hk
    obtain ⟨p, hp, -, -, hhead, hunder, -⟩ := mem_kill hk
    rw [← hhead, ← hunder]
    exact h.head_iff p hp
  under_earlier := by
    intro k hk j hj
    obtain ⟨p, hp, hid, hfam, -, hunder, -⟩ := mem_kill hk
    obtain ⟨q, hq, hqj, hqfam, hlt⟩ := h.under_earlier p hp j (hunder.trans hj)
    obtain ⟨q', hq', hid', hfam', -⟩ := exists_mem_kill (i := i) hq
    exact ⟨q', hq', hid'.trans hqj, by rw [hfam', hqfam, hfam], by rw [hid', ← hid]; exact hlt⟩
  heirOf_earlier := by
    intro k hk j hj
    obtain ⟨p, hp, hid, hfam, -, -, hheir, hgen, -⟩ := mem_kill hk
    obtain ⟨q, hq, hqj, hqfam, hlt, hqgen⟩ := h.heirOf_earlier p hp j (hheir.trans hj)
    obtain ⟨q', hq', hid', hfam', hgen'⟩ := exists_mem_kill (i := i) hq
    exact ⟨q', hq', hid'.trans hqj, by rw [hfam', hqfam, hfam], by rw [hid', ← hid]; exact hlt,
      by rw [← hgen, hqgen, hgen']⟩

theorem Rooted.succeed (h : Rooted l) (hd : d ∈ l) (hp : d.head = true ∨ p ∈ l ∧ p.family = d.family)
    (hi : ∀ p ∈ l, p.id < i) : Rooted (succeed l d p.id i) := by
  refine h.kill.snoc { fresh := ?_, head_iff := ?_, under_mem := ?_, heirOf_mem := ?_ }
  · intro k hk
    obtain ⟨q, hq, hid, -⟩ := mem_kill hk
    exact hid ▸ hi q hq
  · cases hhead : d.head <;> simp [heir, hhead]
  · intro j hj
    rcases hp with hhead | ⟨hp, hfam⟩
    · simp [heir, hhead] at hj
    · obtain ⟨q, hq, hid, hqfam, -⟩ := exists_mem_kill (i := d.id) hp
      have hj' : d.head = false ∧ p.id = j := by
        cases hhead : d.head <;> simp [heir, hhead] at hj
        exact ⟨rfl, hj⟩
      exact ⟨q, hq, hid.trans hj'.2, hqfam.trans hfam⟩
  · rintro j ⟨⟩
    obtain ⟨q, hq, hid, hqfam, hgen⟩ := exists_mem_kill (i := d.id) hd
    exact ⟨q, hq, hid, hqfam, by rw [hgen]; rfl⟩

theorem heirs_succeed : heirs (succeed l d u i) j = heirs l j + if j = d.id then 1 else 0 := by
  have hkill : heirs (kill l d.id) j = heirs l j := by
    unfold heirs kill
    rw [List.countP_map]
    refine List.countP_congr fun k _ => ?_
    by_cases hid : k.id = d.id <;> simp [hid]
  have hsnoc : heirs (succeed l d u i) j = heirs (kill l d.id) j + if d.id = j then 1 else 0 := by
    by_cases hj : d.id = j <;> simp [heirs, succeed, heir, hj]
  rw [hsnoc, hkill]
  simp only [eq_comm]

/-! ## Families -/

section Families

variable [DecidableEq φ] {families : Set φ} {f : φ}

/-- How many of a family live. -/
def living (l : List (Kin ι φ)) (f : φ) : ℕ := l.countP fun k => decide (k.family = f) && k.alive

/-- How many living heads a family has. -/
def heads (l : List (Kin ι φ)) (f : φ) : ℕ :=
  l.countP fun k => decide (k.family = f) && (k.head && k.alive)

/-- A well-formed register of these families. -/
structure WellFormed (families : Set φ) (l : List (Kin ι φ)) : Prop extends Rooted l where
  family_mem : ∀ k ∈ l, k.family ∈ families
  heirs_eq : ∀ p ∈ l, heirs l p.id = if p.alive then 0 else 1
  heads_eq : ∀ f ∈ families, heads l f = 1

/-- The founder of a family. -/
def founder (f : φ) (i : ι) : Kin ι φ :=
  { id := i, family := f, head := true, under := none, heirOf := none, generation := 0, alive := true }

/-- A child of `p`. -/
def child (p : Kin ι φ) (i : ι) : Kin ι φ :=
  { id := i, family := p.family, head := false, under := some p.id, heirOf := none
    generation := p.generation + 1, alive := true }

omit [LinearOrder ι] in
theorem heads_snoc :
    heads (l ++ [k]) f = heads l f + if k.family = f ∧ k.head ∧ k.alive then 1 else 0 := by
  by_cases hf : k.family = f <;> simp [heads, hf]

theorem WellFormed.heads_of_not_mem (h : WellFormed families l) (hf : f ∉ families) :
    heads l f = 0 := by
  refine List.countP_eq_zero.mpr fun k hk hhead => hf ?_
  have hfam : k.family = f := by
    by_contra hne
    simp [hne] at hhead
  exact hfam ▸ h.family_mem k hk

/-- **A founding keeps the register well formed.** -/
theorem WellFormed.found (h : WellFormed families l) (hf : f ∉ families) (hi : ∀ p ∈ l, p.id < i) :
    WellFormed (insert f families) (l ++ [founder f i]) where
  toRooted := h.toRooted.snoc
    { fresh := hi
      head_iff := by simp [founder]
      under_mem := by simp [founder]
      heirOf_mem := by simp [founder] }
  family_mem := by
    intro k hk
    rcases List.mem_append.mp hk with hold | hnew
    · exact Set.mem_insert_of_mem _ (h.family_mem k hold)
    · rw [List.mem_singleton.mp hnew]
      exact Set.mem_insert _ _
  heirs_eq := by
    intro p hp
    rw [heirs_snoc rfl]
    rcases List.mem_append.mp hp with hold | hnew
    · exact h.heirs_eq p hold
    · rw [List.mem_singleton.mp hnew]
      exact h.heirs_fresh hi
  heads_eq := by
    intro g hg
    rw [heads_snoc]
    rcases Set.mem_insert_iff.mp hg with rfl | hold
    · rw [h.heads_of_not_mem hf]
      simp [founder]
    · have hne : f ≠ g := fun heq => hf (heq ▸ hold)
      rw [h.heads_eq g hold]
      simp [founder, hne]

/-- **A birth keeps the register well formed.** -/
theorem WellFormed.bear (h : WellFormed families l) (hp : p ∈ l) (hi : ∀ p ∈ l, p.id < i) :
    WellFormed families (l ++ [child p i]) where
  toRooted := h.toRooted.snoc
    { fresh := hi
      head_iff := by simp [child]
      under_mem := by
        rintro j ⟨⟩
        exact ⟨p, hp, rfl, rfl⟩
      heirOf_mem := by simp [child] }
  family_mem := by
    intro k hk
    rcases List.mem_append.mp hk with hold | hnew
    · exact h.family_mem k hold
    · rw [List.mem_singleton.mp hnew]
      exact h.family_mem p hp
  heirs_eq := by
    intro k hk
    rw [heirs_snoc rfl]
    rcases List.mem_append.mp hk with hold | hnew
    · exact h.heirs_eq k hold
    · rw [List.mem_singleton.mp hnew]
      exact h.heirs_fresh hi
  heads_eq := by
    intro g hg
    rw [heads_snoc, h.heads_eq g hg]
    simp [child]

/-- **A succession does not change how many of a family live.** -/
theorem Rooted.living_succeed (h : Rooted l) (hd : d ∈ l) (halive : d.alive = true) :
    living (Lineage.succeed l d u i) f = living l f := by
  obtain ⟨l₁, l₂, hl, hkill⟩ := h.kill_eq hd
  unfold Lineage.succeed
  rw [hkill, hl]
  by_cases hf : d.family = f <;> simp [living, heir, hf, halive]

/-- A death takes one living head away from the family of a head, and none otherwise. -/
theorem Rooted.heads_kill (h : Rooted l) (hd : d ∈ l) (halive : d.alive = true) :
    heads (Lineage.kill l d.id) f + (if d.family = f ∧ d.head then 1 else 0) = heads l f := by
  obtain ⟨l₁, l₂, hl, hkill⟩ := h.kill_eq hd
  rw [hkill, hl]
  by_cases hf : d.family = f <;> cases hhead : d.head <;> simp [heads, hf, hhead, halive]
  omega

theorem Rooted.heads_succeed (h : Rooted l) (hd : d ∈ l) (halive : d.alive = true) :
    heads (Lineage.succeed l d u i) f = heads l f := by
  unfold Lineage.succeed
  rw [heads_snoc, ← h.heads_kill hd halive]
  simp [heir]

/-- **A succession keeps the register well formed.** -/
theorem WellFormed.succeed (h : WellFormed families l) (hd : d ∈ l) (halive : d.alive = true)
    (hp : d.head = true ∨ p ∈ l ∧ p.family = d.family) (hi : ∀ p ∈ l, p.id < i) :
    WellFormed families (succeed l d p.id i) where
  toRooted := h.toRooted.succeed hd hp hi
  family_mem := by
    intro k hk
    rcases List.mem_append.mp hk with hold | hnew
    · obtain ⟨q, hq, -, hfam, -⟩ := mem_kill hold
      exact hfam ▸ h.family_mem q hq
    · rw [List.mem_singleton.mp hnew]
      exact h.family_mem d hd
  heirs_eq := by
    intro k hk
    rw [heirs_succeed]
    rcases List.mem_append.mp hk with hold | hnew
    · obtain ⟨q, hq, hid, -, -, -, -, -, hk⟩ := mem_kill hold
      rw [← hid, h.heirs_eq q hq, hk]
      by_cases hqd : q.id = d.id
      -- `d` was alive without an heir and is dead with one
      · obtain rfl := h.id_injOn hq hd hqd
        simp [halive]
      · cases hq : q.alive <;> simp [hqd]
    · obtain rfl := List.mem_singleton.mp hnew
      have hne : i ≠ d.id := (hi d hd).ne'
      -- the heir is new, so it has no heir of its own
      simp [heir, hne, h.heirs_fresh hi]
  heads_eq := by
    intro f hf
    rw [h.toRooted.heads_succeed hd halive]
    exact h.heads_eq f hf

end Families

/-! ## Generations -/

section Generations

/-- Everybody after the first generation has one of the generation before in the family. -/
def Gapless (l : List (Kin ι φ)) : Prop :=
  ∀ k ∈ l, k.generation = 0 ∨ ∃ p ∈ l, p.family = k.family ∧ p.generation + 1 = k.generation

omit [LinearOrder ι]

theorem Gapless.snoc (h : Gapless l)
    (hk : k.generation = 0 ∨ ∃ p ∈ l, p.family = k.family ∧ p.generation + 1 = k.generation) : Gapless (l ++ [k]) := by
  intro k' hk'
  have hone : k'.generation = 0 ∨ ∃ p ∈ l, p.family = k'.family ∧ p.generation + 1 = k'.generation := by
    rcases List.mem_append.mp hk' with hold | hnew
    · exact h k' hold
    · rw [List.mem_singleton.mp hnew]
      exact hk
  exact hone.imp_right fun ⟨p, hp, hrest⟩ => ⟨p, List.mem_append_left _ hp, hrest⟩

/-- **The generations of a family have no gap.** -/
theorem Gapless.exists_generation (h : Gapless l) {g : ℕ} (hk : k ∈ l) (hg : g ≤ k.generation) :
    ∃ p ∈ l, p.family = k.family ∧ p.generation = g := by
  induction hn : k.generation - g generalizing k with
  | zero => exact ⟨k, hk, rfl, by omega⟩
  | succ n ih =>
      obtain ⟨p, hp, hfam, hgen⟩ := (h k hk).resolve_left (by omega)
      obtain ⟨q, hq, hqfam, hqgen⟩ := ih hp (by omega) (by omega)
      exact ⟨q, hq, hqfam.trans hfam, hqgen⟩

end Generations

theorem Gapless.succeed (h : Gapless l) (hd : d ∈ l) : Gapless (succeed l d u i) := by
  have hkill : Gapless (kill l d.id) := by
    intro k hk
    obtain ⟨p, hp, -, hfam, -, -, -, hgen, -⟩ := mem_kill hk
    refine (h p hp).imp (fun hzero => hgen ▸ hzero) fun ⟨q, hq, hqfam, hqgen⟩ => ?_
    obtain ⟨q', hq', -, hfam', hgen'⟩ := exists_mem_kill (i := d.id) hq
    exact ⟨q', hq', by rw [hfam', hqfam, hfam], by rw [hgen', hqgen, hgen]⟩
  obtain ⟨d', hd', -, hfam, hgen⟩ := exists_mem_kill (i := d.id) hd
  exact hkill.snoc (.inr ⟨d', hd', hfam, by rw [hgen]; rfl⟩)

/-! ## What is handed down a line -/

/-- **Inheritance along a line**: what one link hands on changed by an idempotent `g`, the whole line hands
    on changed by `g` once. -/
theorem handed_down {α β : Type*} {R : α → α → Prop} {f : α → β} {g : β → β} (hg : ∀ b, g (g b) = g b)
    (hlink : ∀ a b, R a b → f b = g (f a)) {a b : α} (h : Relation.TransGen R a b) : f b = g (f a) := by
  induction h with
  | single hab => exact hlink _ _ hab
  | tail _ hbc ih => rw [hlink _ _ hbc, ih, hg]

end Lineage
