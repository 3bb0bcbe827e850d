import Mathlib.Data.List.Lex
import Mathlib.Data.List.Nodup
import Mathlib.Data.List.Perm.Lattice
import Mathlib.Order.Lattice

/-!
# `InOrder` — what stands at places, in the order of the places

A predicate places things, some of them more than once: they are listed in order if there is one entry for each place
and the places only go up. There is at most one such list. Lists are listed so by the places in their items
(`InOrder.flatMap`), and what is left of a list when everything that repeats an earlier key is dropped is listed so by
the indices of the first occurrences (`firsts_inOrder`).
-/

variable {ι α β κ : Type*}

/-- `xs` lists what `P` places, in the order of the places. -/
def InOrder [Preorder ι] (P : ι → α → Prop) (xs : List α) : Prop :=
  ∃ ps : List (ι × α), ps.map Prod.snd = xs ∧ ps.Pairwise (fun p q => p.1 < q.1) ∧ ∀ i a, (i, a) ∈ ps ↔ P i a

namespace InOrder

section
variable [Preorder ι] {P Q : ι → α → Prop} {xs ys : List α}

/-- **One list at most** is in order. -/
theorem unique (hxs : InOrder P xs) (hys : InOrder P ys) : xs = ys := by
  obtain ⟨ps, rfl, hps, hmem⟩ := hxs
  obtain ⟨qs, rfl, hqs, hmem'⟩ := hys
  have hnodup {rs : List (ι × α)} (hrs : rs.Pairwise fun p q => p.1 < q.1) : rs.Nodup := by
    refine hrs.imp fun hlt => ?_
    rintro rfl
    exact lt_irrefl _ hlt
  have hperm : ps.Perm qs := by
    refine (List.perm_ext_iff_of_nodup (hnodup hps) (hnodup hqs)).mpr fun p => ?_
    exact (hmem p.1 p.2).trans (hmem' p.1 p.2).symm
  rw [List.Perm.eq_of_pairwise (fun p q _ _ hlt hgt => absurd hgt (lt_asymm hlt)) hps hqs hperm]

theorem congr (h : InOrder P xs) (hPQ : ∀ i a, P i a ↔ Q i a) : InOrder Q xs := by
  obtain ⟨ps, hxs, hps, hmem⟩ := h
  exact ⟨ps, hxs, hps, fun i a => (hmem i a).trans (hPQ i a)⟩

theorem nil (h : ∀ i a, ¬ P i a) : InOrder P [] :=
  ⟨[], rfl, .nil, fun i a => iff_of_false List.not_mem_nil (h i a)⟩

theorem cons (h : InOrder P xs) {i : ι} (hfirst : ∀ j a, P j a → i < j) (x : α) :
    InOrder (fun j a => j = i ∧ a = x ∨ P j a) (x :: xs) := by
  obtain ⟨ps, rfl, hps, hmem⟩ := h
  refine ⟨(i, x) :: ps, rfl, hps.cons fun p hp => hfirst _ _ ((hmem p.1 p.2).mp hp), fun j a => ?_⟩
  rw [List.mem_cons, Prod.mk.injEq, hmem]

theorem singleton (i : ι) (x : α) : InOrder (fun j a => j = i ∧ a = x) [x] := by
  have hnone : InOrder (fun (_ : ι) (_ : α) => False) [] := nil fun _ _ => id
  exact (hnone.cons (fun _ _ h => h.elim) x).congr fun j a => or_iff_left id

/-- What is listed is placed somewhere. -/
theorem mem_iff (h : InOrder P xs) {a : α} : a ∈ xs ↔ ∃ i, P i a := by
  obtain ⟨ps, rfl, -, hmem⟩ := h
  rw [List.mem_map]
  constructor
  · rintro ⟨⟨i, a⟩, hp, rfl⟩
    exact ⟨i, (hmem i a).mp hp⟩
  · rintro ⟨i, ha⟩
    exact ⟨(i, a), (hmem i a).mpr ha, rfl⟩

/-- Two lists after each other, when the places of the second are all behind those of the first. -/
theorem append (hxs : InOrder P xs) (hys : InOrder Q ys) (h : ∀ i a j b, P i a → Q j b → i < j) :
    InOrder (fun i a => P i a ∨ Q i a) (xs ++ ys) := by
  obtain ⟨ps, rfl, hps, hmem⟩ := hxs
  obtain ⟨qs, rfl, hqs, hmem'⟩ := hys
  refine ⟨ps ++ qs, List.map_append, List.pairwise_append.mpr ⟨hps, hqs, fun p hp q hq => ?_⟩, fun i a => ?_⟩
  · exact h p.1 p.2 q.1 q.2 ((hmem _ _).mp hp) ((hmem' _ _).mp hq)
  · rw [List.mem_append, hmem, hmem']

/-- The places renamed by a map that keeps their order. -/
theorem relabel {ι' : Type*} [Preorder ι'] {f : ι → ι'} (h : InOrder P xs) (hf : ∀ i j, i < j → f i < f j) :
    InOrder (fun i' a => ∃ i, f i = i' ∧ P i a) xs := by
  obtain ⟨ps, rfl, hps, hmem⟩ := h
  refine ⟨ps.map fun p => (f p.1, p.2), by simp, ?_, fun i' a => ?_⟩
  · rw [List.pairwise_map]
    exact hps.imp fun hlt => hf _ _ hlt
  · rw [List.mem_map]
    constructor
    · rintro ⟨⟨i, b⟩, hp, heq⟩
      obtain ⟨rfl, rfl⟩ := Prod.mk.inj heq
      exact ⟨i, rfl, (hmem i b).mp hp⟩
    · rintro ⟨i, rfl, ha⟩
      exact ⟨(i, a), (hmem i a).mpr ha, rfl⟩

end

/-- **What stands in the items of a list**, placed by the index of the item and the place in it. -/
theorem flatMap {P : β → List ℕ → α → Prop} {f : β → List α} {items : List β}
    (h : ∀ item ∈ items, InOrder (P item) (f item)) :
    InOrder (fun path a => ∃ i rest item, path = i :: rest ∧ items[i]? = some item ∧ P item rest a) (items.flatMap f) := by
  have hfrom (n : ℕ) : InOrder (fun path a => ∃ i rest item, path = (n + i) :: rest ∧ items[i]? = some item ∧
      P item rest a) (items.flatMap f) := by
    induction items generalizing n with
    | nil =>
        refine nil fun path a => ?_
        rintro ⟨i, rest, item, -, hitem, -⟩
        cases hitem
    | cons item items ih =>
        obtain ⟨hitem, hitems⟩ := List.forall_mem_cons.mp h
        have hhead := hitem.relabel (f := fun path => n :: path) fun p q hlt => List.Lex.cons hlt
        refine (hhead.append (ih hitems (n + 1)) ?_).congr fun path a => ?_
        · rintro path a path' b ⟨p, rfl, -⟩ ⟨i, rest, -, rfl, -⟩
          exact List.Lex.rel (by omega)
        · constructor
          · rintro (⟨p, rfl, ha⟩ | ⟨i, rest, item', rfl, hitem', ha⟩)
            · exact ⟨0, p, item, rfl, rfl, ha⟩
            · exact ⟨i + 1, rest, item', by rw [Nat.add_right_comm, Nat.add_assoc], hitem', ha⟩
          · rintro ⟨i, rest, item', rfl, hitem', ha⟩
            cases i with
            | zero =>
                obtain rfl := Option.some.inj hitem'
                exact .inl ⟨rest, rfl, ha⟩
            | succ i => exact .inr ⟨i, rest, item', by rw [Nat.add_right_comm, Nat.add_assoc], hitem', ha⟩
  exact (hfrom 0).congr fun path a => by simp only [Nat.zero_add]

end InOrder

/-! ## First occurrences -/

section
variable [DecidableEq κ] (key : α → κ)

/-- Drop what has a key that was seen before. -/
def firsts (seen : List κ) : List α → List α
  | [] => []
  | x :: xs => if key x ∈ seen then firsts seen xs else x :: firsts (key x :: seen) xs

/-- The entry at an index, if no entry before it has its key. -/
def FirstAt (xs : List α) (i : ℕ) (x : α) : Prop :=
  xs[i]? = some x ∧ ∀ j < i, ∀ y, xs[j]? = some y → key y ≠ key x

variable {key} {seen : List κ} {xs : List α}

theorem not_seen_of_mem_firsts {x : α} (h : x ∈ firsts key seen xs) : key x ∉ seen := by
  induction xs generalizing seen with
  | nil => cases h
  | cons y xs ih =>
      rw [firsts] at h
      split at h
      · exact ih h
      · next hnew =>
          rcases List.mem_cons.mp h with rfl | h
          · exact hnew
          · exact fun hseen => ih h (List.mem_cons_of_mem _ hseen)

/-- **No two of them have the same key.** -/
theorem nodup_firsts : ((firsts key seen xs).map key).Nodup := by
  induction xs generalizing seen with
  | nil => exact List.nodup_nil
  | cons x xs ih =>
      rw [firsts]
      split
      · exact ih
      · rw [List.map_cons, List.nodup_cons]
        refine ⟨fun hmem => ?_, ih⟩
        obtain ⟨y, hy, hkey⟩ := List.mem_map.mp hmem
        exact not_seen_of_mem_firsts hy (hkey ▸ List.mem_cons_self)

omit [DecidableEq κ] in
theorem firstAt_zero {x y : α} : FirstAt key (x :: xs) 0 y ↔ y = x := by
  refine ⟨fun h => (Option.some.inj h.1).symm, ?_⟩
  rintro rfl
  exact ⟨rfl, fun j hj => absurd hj (Nat.not_lt_zero j)⟩

omit [DecidableEq κ] in
theorem firstAt_succ {x y : α} {i : ℕ} : FirstAt key (x :: xs) (i + 1) y ↔ key x ≠ key y ∧ FirstAt key xs i y := by
  constructor
  · rintro ⟨hy, hfirst⟩
    exact ⟨hfirst 0 (Nat.succ_pos i) x rfl, hy, fun j hj z hz => hfirst (j + 1) (Nat.succ_lt_succ hj) z hz⟩
  · rintro ⟨hx, hy, hfirst⟩
    refine ⟨hy, fun j hj z hz => ?_⟩
    cases j with
    | zero => exact Option.some.inj hz ▸ hx
    | succ j => exact hfirst j (Nat.lt_of_succ_lt_succ hj) z hz

/-- **They are the first occurrences, in order.** -/
theorem firsts_inOrder (xs : List α) : InOrder (FirstAt key xs) (firsts key [] xs) := by
  have hfrom (xs : List α) (seen : List κ) (n : ℕ) :
      InOrder (fun i x => ∃ k, i = n + k ∧ key x ∉ seen ∧ FirstAt key xs k x) (firsts key seen xs) := by
    induction xs generalizing seen n with
    | nil =>
        refine .nil fun i x => ?_
        rintro ⟨k, -, -, hx, -⟩
        cases hx
    | cons x xs ih =>
        rw [firsts]
        split
        · next hold =>
            refine (ih seen (n + 1)).congr fun i y => ?_
            constructor
            · rintro ⟨k, rfl, hnew, hy⟩
              exact ⟨k + 1, by omega, hnew, firstAt_succ.mpr ⟨fun hkey => hnew (hkey ▸ hold), hy⟩⟩
            · rintro ⟨k, rfl, hnew, hy⟩
              cases k with
              | zero => exact absurd (firstAt_zero.mp hy ▸ hold) hnew
              | succ k => exact ⟨k, by omega, hnew, (firstAt_succ.mp hy).2⟩
        · next hnew =>
            refine ((ih (key x :: seen) (n + 1)).cons (i := n) ?_ x).congr fun i y => ?_
            · rintro j y ⟨k, rfl, -, -⟩
              omega
            · rw [List.mem_cons, not_or]
              constructor
              · rintro (⟨rfl, rfl⟩ | ⟨k, rfl, ⟨hkey, hnew⟩, hy⟩)
                · exact ⟨0, rfl, hnew, firstAt_zero.mpr rfl⟩
                · exact ⟨k + 1, by omega, hnew, firstAt_succ.mpr ⟨Ne.symm hkey, hy⟩⟩
              · rintro ⟨k, rfl, hnew, hy⟩
                cases k with
                | zero => exact .inl ⟨rfl, firstAt_zero.mp hy⟩
                | succ k =>
                    obtain ⟨hkey, hy⟩ := firstAt_succ.mp hy
                    exact .inr ⟨k, by omega, ⟨Ne.symm hkey, hnew⟩, hy⟩
  exact (hfrom xs [] 0).congr fun i x => by simp only [Nat.zero_add, exists_eq_left', List.not_mem_nil,
    not_false_eq_true, true_and]

end
