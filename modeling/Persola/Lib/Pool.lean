import Mathlib.Algebra.GroupWithZero.Nat
import Mathlib.Algebra.Order.BigOperators.Group.List
import Mathlib.Data.Set.Finite.Lemmas
import Mathlib.Data.Set.Finite.List

/-!
# `Pool` — a growing list of processes and a quantity summed over them

Processes are entries of a list, named by their index; one moves by replacing its entry. `total w ps` adds
up what each holds, and `total_set` is the book-keeping of one move.
-/

namespace Pool

variable {α β : Type*} {w v : α → ℕ} {ps : List α}

/-- The sum of `w` over the processes. -/
def total (w : α → ℕ) (ps : List α) : ℕ := (ps.map w).sum

@[simp] theorem total_nil : total w [] = 0 := rfl

@[simp] theorem total_cons (p : α) : total w (p :: ps) = w p + total w ps := by
  simp [total]

@[simp] theorem total_append (qs : List α) : total w (ps ++ qs) = total w ps + total w qs := by
  simp [total]

/-- Replacing one entry changes the total by the difference of the two. -/
theorem total_set {i : ℕ} {p : α} (h : ps[i]? = some p) (q : α) :
    total w (ps.set i q) + w p = total w ps + w q := by
  induction ps generalizing i with
  | nil => simp at h
  | cons r ps ih =>
      cases i with
      | zero =>
          obtain rfl : r = p := by simpa using h
          simp only [List.set_cons_zero, total_cons]
          omega
      | succ i =>
          have h' : ps[i]? = some p := by simpa using h
          have := ih h'
          simp only [List.set_cons_succ, total_cons]
          omega

/-- Who weighs no more anywhere weighs no more in total. -/
theorem total_mono (h : ∀ p ∈ ps, w p ≤ v p) : total w ps ≤ total v ps := by
  induction ps with
  | nil => exact le_rfl
  | cons p ps ih =>
      have hp := h p List.mem_cons_self
      have hps := ih fun q hq => h q (List.mem_cons_of_mem p hq)
      simp only [total_cons]
      omega

theorem total_congr (h : ∀ p ∈ ps, w p = v p) : total w ps = total v ps :=
  Nat.le_antisymm (total_mono fun p hp => (h p hp).le) (total_mono fun p hp => (h p hp).ge)

theorem total_add : total (fun p => w p + v p) ps = total w ps + total v ps := by
  induction ps with
  | nil => rfl
  | cons p ps ih =>
      simp only [total_cons]
      omega

/-- Weighing one where `f` holds is counting. -/
theorem total_indicator {f : α → Bool} : total (fun p => if f p then 1 else 0) ps = ps.countP f := by
  induction ps with
  | nil => rfl
  | cons p ps ih =>
      rw [total_cons, List.countP_cons, ih, Nat.add_comm]

/-- An entry weighs no more than all of them. -/
theorem le_total {p : α} (hp : p ∈ ps) : w p ≤ total w ps := by
  induction ps with
  | nil => simp at hp
  | cons q ps ih =>
      rw [total_cons]
      rcases List.mem_cons.mp hp with rfl | hp
      · omega
      · have := ih hp
        omega

theorem total_eq_zero_iff : total w ps = 0 ↔ ∀ p ∈ ps, w p = 0 := by
  induction ps with
  | nil => simp
  | cons p ps ih => simp [ih]

/-- Replacing one entry changes a count by what holds of the two. -/
theorem countP_set {f : α → Bool} {i : ℕ} {p : α} (h : ps[i]? = some p) (q : α) :
    (ps.set i q).countP f + (if f p then 1 else 0) = ps.countP f + if f q then 1 else 0 := by
  rw [← total_indicator, ← total_indicator]
  exact total_set h q

/-- Where `f` holds of one entry at most and this one is replaced, it holds of none of the others. -/
theorem others_of_countP_le_one {f : α → Bool} {i : ℕ} {p q r : α} (hle : ps.countP f ≤ 1)
    (h : ps[i]? = some p) (hp : f p = true) (hr : r ∈ ps.set i q) : r = q ∨ r ∈ ps ∧ f r = false := by
  induction ps generalizing i with
  | nil => cases h
  | cons a ps ih =>
      rw [List.countP_cons] at hle
      cases i with
      | zero =>
          obtain rfl := Option.some.inj h
          rw [if_pos hp] at hle
          have hnone : ps.countP f = 0 := by omega
          rcases List.mem_cons.mp hr with rfl | hr
          · exact .inl rfl
          · exact .inr ⟨List.mem_cons_of_mem _ hr, Bool.eq_false_iff.mpr (List.countP_eq_zero.mp hnone r hr)⟩
      | succ i =>
          have h : ps[i]? = some p := h
          have hpos : 0 < ps.countP f := List.countP_pos_iff.mpr ⟨p, List.mem_of_getElem? h, hp⟩
          rcases List.mem_cons.mp hr with rfl | hr
          · refine .inr ⟨List.mem_cons_self, Bool.eq_false_iff.mpr fun hfr => ?_⟩
            rw [if_pos hfr] at hle
            omega
          · exact (ih (by omega) h hr).imp id fun ⟨hmem, hfr⟩ => ⟨List.mem_cons_of_mem _ hmem, hfr⟩

/-- A property of all entries survives a move that gives it to the new entry. -/
theorem forall_set {P : α → Prop} {i : ℕ} {q : α} (hps : ∀ p ∈ ps, P p) (hq : P q) :
    ∀ p ∈ ps.set i q, P p := by
  intro p hp
  rcases List.mem_or_eq_of_mem_set hp with hp | rfl
  · exact hps p hp
  · exact hq

/-- Replacing an entry by itself changes nothing. -/
theorem set_self {i : ℕ} {p : α} (h : ps[i]? = some p) : ps.set i p = ps := by
  obtain ⟨hi, rfl⟩ := List.getElem?_eq_some_iff.mp h
  exact List.set_getElem_self hi

/-- An entry that now counts makes the list of those that count longer by one. -/
theorem filterMap_set {f : β → Option α} {l : List β} {i : ℕ} {b b' : β} {y : α} (hb : l[i]? = some b)
    (hold : f b = none) (hnew : f b' = some y) : ((l.set i b').filterMap f).Perm (l.filterMap f ++ [y]) := by
  induction l generalizing i with
  | nil => cases hb
  | cons a l ih =>
      cases i with
      | zero =>
          obtain rfl := Option.some.inj hb
          rw [List.set_cons_zero, List.filterMap_cons_some hnew, List.filterMap_cons_none hold]
          exact (List.perm_append_singleton y _).symm
      | succ i =>
          have hrest := ih (i := i) hb
          rw [List.set_cons_succ]
          cases ha : f a with
          | none => rwa [List.filterMap_cons_none ha, List.filterMap_cons_none ha]
          | some x =>
              rw [List.filterMap_cons_some ha, List.filterMap_cons_some ha]
              exact hrest.cons x

/-- An entry that counts as before leaves the list as it is. -/
theorem map_set {f : β → α} {l : List β} {i : ℕ} {b b' : β} (hb : l[i]? = some b) (hsame : f b' = f b) :
    (l.set i b').map f = l.map f := by
  rw [List.map_set, hsame]
  exact set_self (by rw [List.getElem?_map, hb]; rfl)

theorem filterMap_set_same {f : β → Option α} {l : List β} {i : ℕ} {b b' : β} (hb : l[i]? = some b)
    (hsame : f b' = f b) : (l.set i b').filterMap f = l.filterMap f := by
  have hmap (l : List β) : l.filterMap f = (l.map f).filterMap id := by
    rw [List.filterMap_map]
    rfl
  rw [hmap, hmap, map_set hb hsame]

/-- The entry a move puts in place is there afterwards. -/
theorem mem_set_of_getElem? {i : ℕ} {p q : α} (h : ps[i]? = some p) : q ∈ ps.set i q :=
  List.mem_set (List.getElem?_eq_some_iff.mp h).1 q

/-- Some entry has the property after a move too, if the mover keeps it whenever it had it. -/
theorem exists_set {P : α → Prop} {i : ℕ} {p q : α} (h : ps[i]? = some p) (hpq : P p → P q)
    (hps : ∃ r ∈ ps, P r) : ∃ r ∈ ps.set i q, P r := by
  obtain ⟨r, hr, hP⟩ := hps
  obtain ⟨j, hj⟩ := List.mem_iff_getElem?.mp hr
  by_cases hij : i = j
  · subst hij
    obtain rfl : p = r := Option.some.inj (h.symm.trans hj)
    exact ⟨q, mem_set_of_getElem? h, hpq hP⟩
  · exact ⟨r, List.mem_iff_getElem?.mpr ⟨j, by rw [List.getElem?_set_ne hij]; exact hj⟩, hP⟩

/-- A property held by all entries after a move was held by all the others before. -/
theorem forall_set_iff {P : α → Prop} {i : ℕ} {p q : α} (h : ps[i]? = some p) (hp : P p) :
    (∀ r ∈ ps.set i q, P r) ↔ (∀ r ∈ ps, P r) ∧ P q := by
  constructor
  · intro hall
    refine ⟨fun r hr => ?_, hall q (mem_set_of_getElem? h)⟩
    obtain ⟨j, hj⟩ := List.mem_iff_getElem?.mp hr
    by_cases hij : i = j
    · subst hij
      exact Option.some.inj (h.symm.trans hj) ▸ hp
    · exact hall r (List.mem_iff_getElem?.mpr ⟨j, by rw [List.getElem?_set_ne hij]; exact hj⟩)
  · rintro ⟨hall, hq⟩
    exact forall_set hall hq

/-! ## Waiting in a fixed order -/

/-- **Lock order**: when every process waits for one resource at a time, and always for one of a higher
    rank than all it holds, some waiting process waits for a resource that no waiting process holds. -/
theorem exists_waits_unheld {ρ : Type*} (waits : α → Option ρ) (holds : α → ρ → Prop) (rank : ρ → ℕ)
    (hord : ∀ p ∈ ps, ∀ r v, holds p r → waits p = some v → rank r < rank v)
    (hwait : ∃ p ∈ ps, (waits p).isSome) :
    ∃ p ∈ ps, ∃ v, waits p = some v ∧ ∀ q ∈ ps, holds q v → waits q = none := by
  -- the process that waits for the resource of the highest rank
  have hfin : {p | p ∈ ps ∧ (waits p).isSome}.Finite := ps.finite_toSet.subset fun _ h => h.1
  obtain ⟨p, ⟨hp, hsome⟩, hmax⟩ :=
    Set.exists_max_image _ (fun p => ((waits p).map rank).getD 0) hfin hwait
  obtain ⟨v, hv⟩ := Option.isSome_iff_exists.mp hsome
  refine ⟨p, hp, v, hv, fun q hq hhold => ?_⟩
  rw [Option.eq_none_iff_forall_ne_some]
  intro v' hv'
  have hlt := hord q hq v v' hhold hv'
  have hle := hmax q ⟨hq, by simp [hv']⟩
  simp only [hv, hv', Option.map_some, Option.getD_some] at hle
  omega

end Pool
