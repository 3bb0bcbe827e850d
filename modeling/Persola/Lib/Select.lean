import Mathlib.Data.List.Sort

/-!
# `Select` — what an ordered, limited query returns

`ORDER BY key` is a stable insertion sort (rows with equal keys stay in table order), `LIMIT n` is
`List.take n`. The lemmas say what the query is *for*: the first row has the least key, a table that is
already in key order is returned as it is, and the rows are the table's own.
-/

namespace Select

variable {α κ : Type*} [LinearOrder κ]

/-- `ORDER BY key ASC`. -/
def orderBy (key : α → κ) (rows : List α) : List α :=
  rows.insertionSort fun a b => key a ≤ key b

/-- `ORDER BY key DESC`. -/
def orderByDesc (key : α → κ) (rows : List α) : List α :=
  rows.insertionSort fun a b => key b ≤ key a

/-- The last `n` entries of a list (all of them when there are fewer). -/
def lastN (n : ℕ) (l : List α) : List α := l.drop (l.length - n)

/-- Each of the first `n` entries recurs `length - n` places later. -/
def Repeats (n : ℕ) (l : List α) : Prop := ∀ i < n, l[i]? = l[i + (l.length - n)]?

variable {key : α → κ} {rows : List α}

theorem orderBy_perm (key : α → κ) (rows : List α) : (orderBy key rows).Perm rows :=
  List.perm_insertionSort _ rows

@[simp] theorem mem_orderBy {a : α} : a ∈ orderBy key rows ↔ a ∈ rows :=
  (orderBy_perm key rows).mem_iff

@[simp] theorem length_orderBy : (orderBy key rows).length = rows.length :=
  (orderBy_perm key rows).length_eq

theorem orderBy_pairwise (key : α → κ) (rows : List α) :
    (orderBy key rows).Pairwise fun a b => key a ≤ key b := by
  have htotal : Std.Total fun a b : α => key a ≤ key b := ⟨fun a b => le_total (key a) (key b)⟩
  have htrans : IsTrans α fun a b => key a ≤ key b := ⟨fun _ _ _ => le_trans⟩
  exact List.pairwise_insertionSort _ rows

/-- A table in key order is returned as it is. -/
theorem orderBy_eq_self (h : rows.Pairwise fun a b => key a ≤ key b) : orderBy key rows = rows :=
  h.insertionSort_eq

/-- Ordering commutes with a change of the rows. -/
theorem orderBy_map {β : Type*} (f : β → α) (key : α → κ) (rows : List β) :
    orderBy key (rows.map f) = (orderBy (fun b => key (f b)) rows).map f :=
  (List.map_insertionSort (fun a b => key (f a) ≤ key (f b)) (fun a b => key a ≤ key b) f rows
    fun _ _ _ _ => Iff.rfl).symm

/-- The row with the least key is returned first. -/
theorem head?_orderBy {a : α} (ha : a ∈ rows) (h : ∀ b ∈ rows, b ≠ a → key a < key b) :
    (orderBy key rows).head? = some a := by
  have hp := orderBy_pairwise key rows
  have ha' : a ∈ orderBy key rows := mem_orderBy.mpr ha
  cases hrows : orderBy key rows with
  | nil =>
      rw [hrows] at ha'
      cases ha'
  | cons b rest =>
      rw [hrows] at hp ha'
      by_contra hne
      have hba : b ≠ a := fun heq => hne (by rw [heq]; rfl)
      have hb : b ∈ rows := mem_orderBy.mp (by rw [hrows]; exact List.mem_cons_self)
      rcases List.mem_cons.mp ha' with heq | hrest
      · exact hba heq.symm
      · exact ((List.pairwise_cons.mp hp).1 a hrest).not_gt (h b hb hba)

/-- The first row of an ordered query: the first in the table of those with the least key. -/
theorem head?_orderBy_cons {r : α} : (orderBy key (r :: rows)).head? =
    match (orderBy key rows).head? with
    | none => some r
    | some b => if key r ≤ key b then some r else some b := by
  show (List.orderedInsert _ r (orderBy key rows)).head? = _
  cases orderBy key rows with
  | nil => rfl
  | cons b rest =>
      rw [List.orderedInsert_cons]
      dsimp only [List.head?_cons]
      split <;> rfl

/-- **What a limit of one selects**: the row is before all others that qualify, at a tie by its place in the table. -/
theorem head?_orderBy_filter_iff {p : α → Bool} {a : α} : (orderBy key (rows.filter p)).head? = some a ↔
    p a = true ∧ ∃ pre post, rows = pre ++ a :: post ∧ (∀ b ∈ pre, p b = true → key a < key b) ∧
      ∀ b ∈ post, p b = true → key a ≤ key b := by
  induction rows generalizing a with
  | nil =>
      refine iff_of_false (by simp [orderBy]) ?_
      rintro ⟨-, pre, post, hrows, -⟩
      cases pre <;> cases hrows
  | cons r rows ih =>
      by_cases hr : p r = true
      · rw [List.filter_cons_of_pos hr, head?_orderBy_cons]
        constructor
        · intro h
          split at h
          · next hnone =>
              obtain rfl := Option.some.inj h
              refine ⟨hr, [], rows, rfl, by simp, fun b hb hpb => ?_⟩
              have hmem : b ∈ orderBy key (rows.filter p) := mem_orderBy.mpr (List.mem_filter.mpr ⟨hb, hpb⟩)
              rw [List.head?_eq_none_iff.mp hnone] at hmem
              cases hmem
          · next b hb =>
              obtain ⟨hpb, pre, post, hrows, hpre, hpost⟩ := ih.mp hb
              split at h
              · next hle =>
                  obtain rfl := Option.some.inj h
                  refine ⟨hr, [], rows, rfl, by simp, fun c hc hpc => hle.trans ?_⟩
                  rw [hrows] at hc
                  rcases List.mem_append.mp hc with hc | hc
                  · exact (hpre c hc hpc).le
                  · rcases List.mem_cons.mp hc with rfl | hc
                    · exact le_rfl
                    · exact hpost c hc hpc
              · next hlt =>
                  obtain rfl := Option.some.inj h
                  refine ⟨hpb, r :: pre, post, by rw [hrows]; rfl, ?_, hpost⟩
                  exact List.forall_mem_cons.mpr ⟨fun _ => not_le.mp hlt, hpre⟩
        · rintro ⟨hpa, pre, post, hrows, hpre, hpost⟩
          cases pre with
          | nil =>
              obtain ⟨rfl, rfl⟩ := List.cons.inj hrows
              split
              · rfl
              · next b hb =>
                  obtain ⟨hmem, hpb⟩ := List.mem_filter.mp (mem_orderBy.mp (List.mem_of_mem_head? hb))
                  rw [if_pos (hpost b hmem hpb)]
          | cons r' pre =>
              obtain ⟨rfl, rfl⟩ := List.cons.inj hrows
              obtain ⟨hlt, hpre⟩ := List.forall_mem_cons.mp hpre
              rw [ih.mpr ⟨hpa, pre, post, rfl, hpre, hpost⟩]
              dsimp only
              rw [if_neg (hlt hr).not_ge]
      · rw [List.filter_cons_of_neg hr, ih]
        refine and_congr_right fun hpa => ?_
        constructor
        · rintro ⟨pre, post, hrows, hpre, hpost⟩
          refine ⟨r :: pre, post, by rw [hrows]; rfl, ?_, hpost⟩
          exact List.forall_mem_cons.mpr ⟨fun h => absurd h hr, hpre⟩
        · rintro ⟨pre, post, hrows, hpre, hpost⟩
          cases pre with
          | nil =>
              obtain ⟨rfl, rfl⟩ := List.cons.inj hrows
              exact absurd hpa hr
          | cons r' pre =>
              obtain ⟨rfl, rfl⟩ := List.cons.inj hrows
              exact ⟨pre, post, rfl, (List.forall_mem_cons.mp hpre).2, hpost⟩

/-- A limited ordered query is closed downwards: with a row it returns every row of a lesser key. -/
theorem mem_take_orderBy_of_lt {n : ℕ} {a b : α} (ha : a ∈ (orderBy key rows).take n) (hb : b ∈ rows)
    (h : key b < key a) : b ∈ (orderBy key rows).take n := by
  have hp := orderBy_pairwise key rows
  have hb' : b ∈ orderBy key rows := mem_orderBy.mpr hb
  rw [← List.take_append_drop n (orderBy key rows)] at hp hb'
  rcases List.mem_append.mp hb' with hb' | hb'
  · exact hb'
  · exact absurd ((List.pairwise_append.mp hp).2.2 a ha b hb') (not_le.mpr h)

/-- The last row of a limited ordered query has the greatest key it returns. -/
theorem le_getLast_take_orderBy {n : ℕ} {a b : α} (ha : ((orderBy key rows).take n).getLast? = some a)
    (hb : b ∈ (orderBy key rows).take n) : key b ≤ key a := by
  have hp := (orderBy_pairwise key rows).take (i := n)
  obtain ⟨init, hinit⟩ := List.getLast?_eq_some_iff.mp ha
  rw [hinit] at hp hb
  rcases List.mem_append.mp hb with hb | hb
  · exact (List.pairwise_append.mp hp).2.2 b hb a (List.mem_singleton_self a)
  · rw [List.mem_singleton.mp hb]

/-- What a limited query of rows in key order finds under a key: all that is there, if few enough come before. -/
theorem find?_take {l : List α} (h : l.Pairwise fun a b => key a ≤ key b) (n : ℕ) (k : κ) :
    (l.take n).find? (key · = k) = if l.countP (key · < k) < n then l.find? (key · = k) else none := by
  induction l generalizing n with
  | nil => rw [List.take_nil, List.find?_nil, ite_self]
  | cons a l ih =>
      obtain ⟨ha, hl⟩ := List.pairwise_cons.mp h
      cases n with
      | zero => simp
      | succ n =>
          rw [List.take_succ_cons, List.find?_cons, List.find?_cons, List.countP_cons]
          by_cases hk : key a = k
          · have hnone : l.countP (key · < k) = 0 := by
              apply List.countP_eq_zero.mpr
              intro b hb hlt
              exact absurd (of_decide_eq_true hlt) (not_lt.mpr (hk ▸ ha b hb))
            rw [hnone]
            simp [hk]
          · rw [decide_eq_false hk]
            dsimp only
            rw [ih hl]
            rcases lt_or_gt_of_ne hk with hlt | hgt
            · simp [hlt]
            · have hnone : l.find? (key · = k) = none := by
                apply List.find?_eq_none.mpr
                intro b hb heq
                exact absurd (of_decide_eq_true heq) (ne_of_gt (lt_of_lt_of_le hgt (ha b hb)))
              rw [hnone, ite_self, ite_self]

theorem orderByDesc_perm (key : α → κ) (rows : List α) : (orderByDesc key rows).Perm rows :=
  List.perm_insertionSort _ rows

@[simp] theorem mem_orderByDesc {a : α} : a ∈ orderByDesc key rows ↔ a ∈ rows :=
  (orderByDesc_perm key rows).mem_iff

theorem orderByDesc_pairwise (key : α → κ) (rows : List α) :
    (orderByDesc key rows).Pairwise fun a b => key b ≤ key a := by
  have htotal : Std.Total fun a b : α => key b ≤ key a := ⟨fun a b => le_total (key b) (key a)⟩
  have htrans : IsTrans α fun a b => key b ≤ key a := ⟨fun _ _ _ hab hbc => le_trans hbc hab⟩
  exact List.pairwise_insertionSort _ rows

/-- **A descending query is stable**: rows with one key stay in their order. -/
theorem orderByDesc_stable {rank : α → ℕ} (h : rows.Pairwise fun a b => rank a < rank b) :
    (orderByDesc key rows).Pairwise fun a b => key b < key a ∨ key b = key a ∧ rank a < rank b := by
  have hinsert (r : α) (l : List α)
      (hl : l.Pairwise fun a b => key b < key a ∨ key b = key a ∧ rank a < rank b) (hr : ∀ a ∈ l, rank r < rank a) :
      (l.orderedInsert (fun a b => key b ≤ key a) r).Pairwise
        fun a b => key b < key a ∨ key b = key a ∧ rank a < rank b := by
    induction l with
    | nil => exact List.pairwise_singleton _ _
    | cons b l ih =>
        obtain ⟨hb, hl⟩ := List.pairwise_cons.mp hl
        obtain ⟨hrb, hr⟩ := List.forall_mem_cons.mp hr
        rw [List.orderedInsert_cons]
        split
        · next hle =>
            have htail := List.pairwise_cons.mpr ⟨hb, hl⟩
            refine List.pairwise_cons.mpr ⟨List.forall_mem_cons.mpr ⟨?_, fun x hx => ?_⟩, htail⟩
            · exact hle.lt_or_eq.imp id fun heq => ⟨heq, hrb⟩
            · have hxb : key x ≤ key b := (hb x hx).elim le_of_lt fun heq => heq.1.le
              exact (hxb.trans hle).lt_or_eq.imp id fun heq => ⟨heq, hr x hx⟩
        · next hgt =>
            refine List.pairwise_cons.mpr ⟨fun x hx => ?_, ih hl hr⟩
            rcases List.mem_cons.mp ((List.perm_orderedInsert _ r l).mem_iff.mp hx) with rfl | hx
            · exact .inl (not_le.mp hgt)
            · exact hb x hx
  unfold orderByDesc
  induction rows with
  | nil => exact List.Pairwise.nil
  | cons r rows ih =>
      obtain ⟨hr, hrows⟩ := List.pairwise_cons.mp h
      exact hinsert r _ (ih hrows) fun a ha => hr a ((List.mem_insertionSort _).mp ha)

/-- What a query in order returns before its last row. -/
theorem mem_dropLast_iff {R : α → α → Prop} {l : List α} (hl : l.Pairwise R) (hR : ∀ a b, R a b → ¬ R b a) {a : α} :
    a ∈ l.dropLast ↔ a ∈ l ∧ ∃ b ∈ l, R a b := by
  rcases List.eq_nil_or_concat l with rfl | ⟨init, last, rfl⟩
  · simp
  · rw [List.concat_eq_append] at hl ⊢
    rw [List.dropLast_concat]
    have hlast (x : α) (hx : x ∈ init) : R x last :=
      (List.pairwise_append.mp hl).2.2 x hx last (List.mem_singleton_self _)
    constructor
    · intro ha
      exact ⟨List.mem_append_left _ ha, last, List.mem_append_right _ (List.mem_singleton_self _), hlast a ha⟩
    · rintro ⟨ha, b, hb, hab⟩
      rcases List.mem_append.mp ha with ha | ha
      · exact ha
      · obtain rfl := List.mem_singleton.mp ha
        rcases List.mem_append.mp hb with hb | hb
        · exact absurd hab (hR _ _ (hlast b hb))
        · obtain rfl := List.mem_singleton.mp hb
          exact absurd hab (hR _ _ hab)

/-- The row with the greatest key is returned first by a descending query. -/
theorem head?_orderByDesc {a : α} (ha : a ∈ rows) (h : ∀ b ∈ rows, b ≠ a → key b < key a) :
    (orderByDesc key rows).head? = some a :=
  head?_orderBy (κ := κᵒᵈ) ha h

/-- A table in strict key order is returned reversed by a descending query. -/
theorem orderByDesc_eq_reverse (h : rows.Pairwise fun a b => key a < key b) :
    orderByDesc key rows = rows.reverse := by
  have hnd : (rows.map key).Nodup := by
    rw [List.Nodup, List.pairwise_map]
    exact h.imp ne_of_lt
  have hrev : rows.reverse.Pairwise fun a b => key b ≤ key a :=
    List.pairwise_reverse.mpr (h.imp le_of_lt)
  refine List.Perm.eq_of_pairwise ?_ (orderByDesc_pairwise _ _) hrev
    ((orderByDesc_perm _ _).trans (List.reverse_perm _).symm)
  intro a b ha hb hab hba
  exact List.inj_on_of_nodup_map hnd (mem_orderByDesc.mp ha) (List.mem_reverse.mp hb)
    (le_antisymm hba hab)

/-! ## The last entries of a list -/

theorem lastN_of_le {n : ℕ} {l : List α} (h : l.length ≤ n) : lastN n l = l := by
  simp [lastN, Nat.sub_eq_zero_of_le h]

theorem lastN_map {β : Type*} (f : α → β) (n : ℕ) (l : List α) :
    lastN n (l.map f) = (lastN n l).map f := by
  simp [lastN]

/-- The first `n` entries are the last `n` exactly when the list has no more than `n`, or repeats
    itself. -/
theorem take_eq_lastN_iff {n : ℕ} {l : List α} :
    l.take n = lastN n l ↔ l.length ≤ n ∨ Repeats n l := by
  constructor
  · intro h
    rcases Nat.lt_or_ge n l.length with hlt | hle
    · refine Or.inr fun i hi => ?_
      have hget : (l.take n)[i]? = (lastN n l)[i]? := by rw [h]
      rw [List.getElem?_take_of_lt hi, lastN, List.getElem?_drop, Nat.add_comm] at hget
      exact hget
    · exact Or.inl hle
  · rintro (hle | hrep)
    · rw [lastN_of_le hle, List.take_of_length_le hle]
    · apply List.ext_getElem?
      intro i
      rw [lastN, List.getElem?_drop, Nat.add_comm, List.getElem?_take]
      by_cases hi : i < n
      · rw [if_pos hi]; exact hrep i hi
      · rw [if_neg hi, eq_comm, List.getElem?_eq_none_iff]
        omega

theorem length_lastN (n : ℕ) (l : List α) : (lastN n l).length = min n l.length := by
  rw [lastN, List.length_drop]
  omega

/-- What is cut off, and what is left. -/
theorem take_append_lastN (n : ℕ) (l : List α) : l.take (l.length - n) ++ lastN n l = l :=
  List.take_append_drop _ l

theorem lastN_append {n : ℕ} {l r : List α} (h : n ≤ r.length) : lastN n (l ++ r) = lastN n r := by
  unfold lastN
  rw [List.length_append, Nat.add_sub_assoc h, List.drop_append, Nat.add_sub_cancel_left]
  rw [List.drop_eq_nil_of_le (Nat.le_add_right _ _), List.nil_append]

/-- Entries at the end are missing from a window unless there are none. -/
theorem lastN_append_eq_left_iff {n : ℕ} {l r : List α} (hn : 1 ≤ n) (h : (l ++ r).Nodup) :
    lastN n l = lastN n (l ++ r) ↔ r = [] := by
  constructor
  · intro heq
    by_contra hr
    have hlength : ¬ (l ++ r).length ≤ (l ++ r).length - n := by
      have hpos := List.length_pos_iff.mpr hr
      rw [List.length_append]
      omega
    have hlast : (lastN n l).getLast? = some (r.getLast hr) := by
      rw [heq, lastN, List.getLast?_drop, if_neg hlength, List.getLast?_append_of_ne_nil _ hr]
      exact List.getLast?_eq_some_getLast hr
    have hmem : r.getLast hr ∈ l := List.mem_of_mem_drop (List.mem_of_getLast? hlast)
    exact List.disjoint_of_nodup_append h hmem (List.getLast_mem hr)
  · rintro rfl
    rw [List.append_nil]

/-- Entries at the front are missing from a window unless there are none, or enough without them. -/
theorem lastN_append_eq_right_iff {n : ℕ} {l r : List α} :
    lastN n r = lastN n (l ++ r) ↔ l = [] ∨ n ≤ r.length := by
  constructor
  · intro heq
    have hlength := congrArg List.length heq
    rw [length_lastN, length_lastN, List.length_append] at hlength
    rw [← List.length_eq_zero_iff]
    omega
  · rintro (rfl | hle)
    · rfl
    · exact (lastN_append hle).symm

/-! ## Queries of rows with distinct keys -/

/-- **The newest rows**: the `n` of the greatest keys, all of them if there are fewer, in key order. -/
structure Newest (key : α → κ) (n : ℕ) (rows l : List α) : Prop where
  sorted : l.Pairwise fun a b => key a < key b
  stored : ∀ a ∈ l, a ∈ rows
  length : l.length = min n rows.length
  newer : ∀ a ∈ l, ∀ b ∈ rows, b ∉ l → key b < key a

theorem orderBy_pairwise_lt (h : (rows.map key).Nodup) :
    (orderBy key rows).Pairwise fun a b => key a < key b := by
  have hnodup : ((orderBy key rows).map key).Nodup := ((orderBy_perm key rows).map key).nodup_iff.mpr h
  rw [List.Nodup, List.pairwise_map] at hnodup
  exact ((orderBy_pairwise key rows).and hnodup).imp fun hab => lt_of_le_of_ne hab.1 hab.2

/-- Rows in strict key order are the rows of the ordered query. -/
theorem eq_orderBy {l : List α} (hl : l.Pairwise fun a b => key a < key b) (h : l.Perm rows) :
    l = orderBy key rows := by
  refine List.Perm.eq_of_pairwise ?_ (hl.imp le_of_lt) (orderBy_pairwise key rows)
    (h.trans (orderBy_perm key rows).symm)
  intro a b ha hb hab hba
  have hnodup : (l.map key).Nodup := by
    rw [List.Nodup, List.pairwise_map]
    exact hl.imp ne_of_lt
  exact List.inj_on_of_nodup_map hnodup ha (h.mem_iff.mpr (mem_orderBy.mp hb)) (le_antisymm hab hba)

theorem orderBy_filter (h : (rows.map key).Nodup) (p : α → Bool) :
    orderBy key (rows.filter p) = (orderBy key rows).filter p :=
  (eq_orderBy ((orderBy_pairwise_lt h).filter _) ((orderBy_perm key rows).filter p)).symm

/-- The newest rows are the last ones of the ordered query. -/
theorem newest_iff (h : (rows.map key).Nodup) {n : ℕ} {l : List α} :
    Newest key n rows l ↔ l = lastN n (orderBy key rows) := by
  classical
  have hsorted := orderBy_pairwise_lt h
  constructor
  · intro hl
    have hperm : ((orderBy key rows).filter (· ∉ l) ++ l).Perm rows := by
      have hnodup : rows.Nodup := h.of_map
      have hold : ((orderBy key rows).filter (· ∉ l)).Nodup :=
        ((orderBy_perm key rows).nodup_iff.mpr hnodup).filter _
      have hnew : l.Nodup := hl.sorted.imp fun hab heq => hab.ne (congrArg key heq)
      refine (List.perm_ext_iff_of_nodup (List.nodup_append.mpr ⟨hold, hnew, ?_⟩) hnodup).mpr fun a => ?_
      · rintro a ha b hb rfl
        exact of_decide_eq_true (List.mem_filter.mp ha).2 hb
      · rw [List.mem_append, List.mem_filter, mem_orderBy, decide_eq_true_iff]
        by_cases ha : a ∈ l
        · exact iff_of_true (.inr ha) (hl.stored a ha)
        · exact ⟨fun h => (h.resolve_right ha).1, fun h => .inl ⟨h, ha⟩⟩
    have hall := eq_orderBy (List.pairwise_append.mpr ⟨hsorted.filter _, hl.sorted, fun a ha b hb => ?_⟩) hperm
    · have hlength := hperm.length_eq
      have hwindow := hl.length
      rw [List.length_append] at hlength
      rw [← hall]
      rcases Nat.lt_or_ge l.length n with hlt | hle
      · have hnone : (orderBy key rows).filter (· ∉ l) = [] := List.length_eq_zero_iff.mp (by omega)
        rw [hnone, List.nil_append, lastN_of_le hlt.le]
      · rw [lastN_append hle, lastN_of_le (by omega)]
    · obtain ⟨hrow, hold⟩ := List.mem_filter.mp ha
      exact hl.newer b hb a (mem_orderBy.mp hrow) (of_decide_eq_true hold)
  · rintro rfl
    refine ⟨hsorted.drop, fun a ha => ?_, ?_, fun a ha b hb hnew => ?_⟩
    · exact mem_orderBy.mp (List.mem_of_mem_drop ha)
    · rw [length_lastN, length_orderBy]
    · have hb' : b ∈ orderBy key rows := mem_orderBy.mpr hb
      rw [← take_append_lastN n (orderBy key rows)] at hsorted hb'
      exact (List.pairwise_append.mp hsorted).2.2 b ((List.mem_append.mp hb').resolve_right hnew) a ha

/-- `l` are the first `n` of the rows in the order `r`. -/
structure Leading (r : α → α → Prop) (n : ℕ) (rows l : List α) : Prop where
  sorted : l.Pairwise r
  length : l.length = min n rows.length
  rest : ∃ rest, (l ++ rest).Perm rows ∧ ∀ a ∈ l, ∀ b ∈ rest, r a b

theorem Leading.mem {r : α → α → Prop} {n : ℕ} {l : List α} (h : Leading r n rows l) {a : α} (ha : a ∈ l) :
    a ∈ rows := by
  obtain ⟨rest, hperm, -⟩ := h.rest
  exact hperm.mem_iff.mp (List.mem_append_left rest ha)

/-- The first rows of a table in order. -/
theorem leading_take {r : α → α → Prop} {l : List α} (hperm : l.Perm rows) (hsorted : l.Pairwise r) (n : ℕ) :
    Leading r n rows (l.take n) := by
  have hparts := hsorted
  rw [← List.take_append_drop n l, List.pairwise_append] at hparts
  refine ⟨hparts.1, ?_, l.drop n, ?_, hparts.2.2⟩
  · rw [List.length_take, hperm.length_eq]
  · rw [List.take_append_drop]
    exact hperm

/-- **What a limited query returns**, whatever the order of rows with one key. -/
theorem leading_orderBy (key : α → κ) (n : ℕ) (rows : List α) :
    Leading (fun a b => key a ≤ key b) n rows ((orderBy key rows).take n) :=
  leading_take (orderBy_perm key rows) (orderBy_pairwise key rows) n

theorem leading_orderByDesc (key : α → κ) (n : ℕ) (rows : List α) :
    Leading (fun a b => key b ≤ key a) n rows ((orderByDesc key rows).take n) :=
  leading_take (orderByDesc_perm key rows) (orderByDesc_pairwise key rows) n

/-- A row is among the first exactly if few enough come before. -/
theorem mem_take_orderBy_iff (h : (rows.map key).Nodup) {k : ℕ} {a : α} :
    a ∈ (orderBy key rows).take k ↔ a ∈ rows ∧ rows.countP (key · < key a) < k := by
  have hsorted := orderBy_pairwise_lt h
  rw [← (orderBy_perm key rows).mem_iff, ← (orderBy_perm key rows).countP_eq]
  generalize orderBy key rows = l at hsorted ⊢
  induction l generalizing k with
  | nil => simp
  | cons b l ih =>
      obtain ⟨hb, hl⟩ := List.pairwise_cons.mp hsorted
      cases k with
      | zero => simp
      | succ k =>
          have hrest : a ∈ l.take k ↔ a ∈ l ∧ l.countP (key · < key a) < k := ih hl
          rw [List.take_succ_cons, List.mem_cons, List.mem_cons, List.countP_cons, hrest]
          constructor
          · rintro (rfl | ⟨ha, hcount⟩)
            · refine ⟨.inl rfl, ?_⟩
              have hnone : l.countP (key · < key a) = 0 :=
                List.countP_eq_zero.mpr fun c hc hlt => (hb c hc).not_gt (of_decide_eq_true hlt)
              simp [hnone]
            · exact ⟨.inr ha, by split <;> omega⟩
          · rintro ⟨rfl | ha, hcount⟩
            · exact .inl rfl
            · rw [if_pos (decide_eq_true (hb a ha))] at hcount
              exact .inr ⟨ha, by omega⟩

/-- A descending query, read backwards. -/
theorem reverse_take_orderByDesc (h : (rows.map key).Nodup) (k : ℕ) :
    ((orderByDesc key rows).take k).reverse = lastN k (orderBy key rows) := by
  have hdesc : orderByDesc key rows = (orderBy key rows).reverse := by
    have hrev : (orderBy key rows).reverse.Pairwise fun a b => key b < key a :=
      List.pairwise_reverse.mpr (orderBy_pairwise_lt h)
    exact (eq_orderBy (κ := κᵒᵈ) hrev ((List.reverse_perm _).trans (orderBy_perm key rows))).symm
  rw [hdesc, lastN, List.take_reverse, List.reverse_reverse]

/-- A row is among the last exactly if few enough come after. -/
theorem mem_lastN_orderBy_iff (h : (rows.map key).Nodup) {k : ℕ} {a : α} :
    a ∈ lastN k (orderBy key rows) ↔ a ∈ rows ∧ rows.countP (key a < key ·) < k := by
  rw [← reverse_take_orderByDesc h, List.mem_reverse]
  exact mem_take_orderBy_iff (κ := κᵒᵈ) h

/-! ## Filters behind a limit -/

/-- Of a list without duplicates, an entry is in one part exactly if it is not in the other. -/
theorem mem_part_iff {l r : List α} (h : (l ++ r).Nodup) {a : α} :
    (a ∈ l ↔ a ∈ l ++ r ∧ a ∉ r) ∧ (a ∈ r ↔ a ∈ l ++ r ∧ a ∉ l) := by
  have hdisjoint := List.disjoint_of_nodup_append h
  rw [List.mem_append]
  constructor
  · exact ⟨fun ha => ⟨.inl ha, hdisjoint ha⟩, fun ⟨ha, hout⟩ => ha.resolve_right hout⟩
  · exact ⟨fun ha => ⟨.inr ha, fun ha' => hdisjoint ha' ha⟩, fun ⟨ha, hout⟩ => ha.resolve_left hout⟩

theorem orderBy_nodup (h : (rows.map key).Nodup) : (orderBy key rows).Nodup :=
  (orderBy_perm key rows).nodup_iff.mpr h.of_map

/-- Rows that are fetched oldest first, and filtered then: the newest are there if every row wanted was fetched. -/
theorem newest_filter_take_iff (h : (rows.map key).Nodup) {n : ℕ} (hn : 1 ≤ n) (p : α → Bool) (k : ℕ) :
    Newest key n (rows.filter p) (lastN n (((orderBy key rows).take k).filter p)) ↔
      ∀ a ∈ rows, p a = true → rows.countP (key · < key a) < k := by
  have hparts := List.take_append_drop k (orderBy key rows)
  have hnodup := orderBy_nodup h
  rw [newest_iff (h.sublist (List.filter_sublist.map key)), orderBy_filter h]
  have hsplit : (orderBy key rows).filter p =
      ((orderBy key rows).take k).filter p ++ ((orderBy key rows).drop k).filter p := by
    rw [← List.filter_append, hparts]
  have hdrop (a : α) : a ∈ (orderBy key rows).drop k ↔ a ∈ rows ∧ ¬ rows.countP (key · < key a) < k := by
    rw [← hparts] at hnodup
    rw [(mem_part_iff hnodup).2, hparts, mem_orderBy, mem_take_orderBy_iff h]
    exact and_congr_right fun ha => not_congr (and_iff_right ha)
  rw [hsplit, lastN_append_eq_left_iff hn (hsplit ▸ hnodup.filter p), List.filter_eq_nil_iff]
  constructor
  · intro hnone a ha hp
    by_contra hcount
    exact hnone a ((hdrop a).mpr ⟨ha, hcount⟩) hp
  · intro hall a ha hp
    obtain ⟨hrow, hcount⟩ := (hdrop a).mp ha
    exact hcount (hall a hrow hp)

/-- Rows that are fetched newest first, and filtered then: the newest are there if every row wanted was fetched, or
enough of them. -/
theorem newest_filter_lastN_iff (h : (rows.map key).Nodup) {n : ℕ} (p : α → Bool) (k : ℕ) :
    Newest key n (rows.filter p) (lastN n ((lastN k (orderBy key rows)).filter p)) ↔
      (∀ a ∈ rows, p a = true → rows.countP (key a < key ·) < k) ∨
        n ≤ rows.countP fun a => p a && decide (rows.countP (key a < key ·) < k) := by
  have hparts := take_append_lastN k (orderBy key rows)
  have hnodup := orderBy_nodup h
  rw [newest_iff (h.sublist (List.filter_sublist.map key)), orderBy_filter h]
  have hcut (a : α) : a ∈ (orderBy key rows).take ((orderBy key rows).length - k) ↔
      a ∈ rows ∧ ¬ rows.countP (key a < key ·) < k := by
    rw [← hparts] at hnodup
    rw [(mem_part_iff hnodup).1, hparts, mem_orderBy, mem_lastN_orderBy_iff h]
    exact and_congr_right fun ha => not_congr (and_iff_right ha)
  have hsplit : (orderBy key rows).filter p =
      ((orderBy key rows).take ((orderBy key rows).length - k)).filter p ++
        (lastN k (orderBy key rows)).filter p := by
    rw [← List.filter_append, hparts]
  set q : α → Bool := fun a => p a && decide (rows.countP (key a < key ·) < k) with hq
  have hnone : ((orderBy key rows).take ((orderBy key rows).length - k)).countP q = 0 := by
    refine List.countP_eq_zero.mpr fun a ha hp => ?_
    have hcount := ((hcut a).mp ha).2
    simp [hq, hcount] at hp
  have hall : (lastN k (orderBy key rows)).countP q = (lastN k (orderBy key rows)).countP p := by
    refine List.countP_congr fun a ha => ?_
    have hcount := ((mem_lastN_orderBy_iff h).mp ha).2
    simp [hq, hcount]
  have hfetched : ((lastN k (orderBy key rows)).filter p).length = rows.countP q := by
    rw [← (orderBy_perm key rows).countP_eq, ← List.countP_eq_length_filter, ← hall]
    rw [← Nat.zero_add (List.countP q _), ← hnone, ← List.countP_append, hparts]
  rw [hsplit, lastN_append_eq_right_iff, hfetched, List.filter_eq_nil_iff]
  refine or_congr_left ⟨fun hnone a ha hp => ?_, fun hall a ha hp => ?_⟩
  · by_contra hcount
    exact hnone a ((hcut a).mpr ⟨ha, hcount⟩) hp
  · obtain ⟨hrow, hcount⟩ := (hcut a).mp ha
    exact hcount (hall a hrow hp)

end Select
