import Mathlib.Data.List.Basic

/-!
# `Regex` — backtracking patterns

Patterns as Python's `re` runs them. `ways` lists the ways a pattern matches at the head of a text in the order
in which they are tried, each with the groups it captures and the rest of the text; the match is the first of
them, and `finditer` collects the matches of a text from left to right, each looked for behind the last one.

There are two sides to it. What *can* match is a matter of membership (the `mem_ways` lemmas). Which way comes
first is a matter of `first`, which hands the groups and the rest to whatever has to match next and backtracks
when that fails.
-/

/-- A pattern. -/
inductive Regex
  | empty
  | char (p : Char → Bool)
  /-- `[p]*` -/
  | many (p : Char → Bool)
  /-- `[p]*?` -/
  | fewest (p : Char → Bool)
  /-- `(?:r)?` -/
  | maybe (r : Regex)
  | seq (r r' : Regex)
  /-- `(r)` -/
  | group (r : Regex)
  /-- `$` with `re.MULTILINE` -/
  | lineEnd

namespace Regex

/-- The characters of a text, one after the other. -/
def lit : List Char → Regex
  | [] => .empty
  | c :: w => .seq (.char (· == c)) (lit w)

/-- `[p]+` -/
def plus (p : Char → Bool) : Regex := .seq (.char p) (.many p)

/-- One pattern after the other. -/
def concat (rs : List Regex) : Regex := rs.foldr .seq .empty

/-- What is left behind characters with `p`, of as many as possible first. -/
def manyRests (p : Char → Bool) : List Char → List (List Char)
  | [] => [[]]
  | c :: s => if p c then manyRests p s ++ [c :: s] else [c :: s]

/-- What is left behind characters with `p`, of as few as possible first. -/
def fewestRests (p : Char → Bool) : List Char → List (List Char)
  | [] => [[]]
  | c :: s => (c :: s) :: if p c then fewestRests p s else []

/-- The ways to match at the head of a text: the groups, and the rest of the text. -/
def ways : Regex → List Char → List (List (List Char) × List Char)
  | .empty, s => [([], s)]
  | .char _, [] => []
  | .char p, c :: s => if p c then [([], s)] else []
  | .many p, s => (manyRests p s).map ([], ·)
  | .fewest p, s => (fewestRests p s).map ([], ·)
  | .maybe r, s => ways r s ++ [([], s)]
  | .seq r r', s => (ways r s).flatMap fun m => (ways r' m.2).map fun n => (m.1 ++ n.1, n.2)
  | .group r, s => (ways r s).map fun m => (s.take (s.length - m.2.length) :: m.1, m.2)
  | .lineEnd, [] => [([], [])]
  | .lineEnd, c :: s => if c = '\n' then [([], c :: s)] else []

/-- The groups of the matches in a text, `skip` characters of which belong to a match already; for patterns that
    do not match the empty text. -/
def finditer (r : Regex) : ℕ → List Char → List (List (List Char))
  | _, [] => []
  | skip + 1, _ :: s => finditer r skip s
  | 0, c :: s =>
      match (ways r (c :: s)).head? with
      | some (cs, t) => cs :: finditer r (s.length - t.length) s
      | none => finditer r 0 s

/-! ## What can match -/

section
variable {p : Char → Bool} {r r' : Regex} {w s t : List Char} {cs : List (List Char)}

attribute [local simp] ways

theorem mem_manyRests : t ∈ manyRests p s ↔ ∃ a, s = a ++ t ∧ ∀ c ∈ a, p c := by
  induction s with
  | nil => simp [manyRests]
  | cons c s ih =>
      unfold manyRests
      split
      · next hc =>
          rw [List.mem_append, List.mem_singleton, ih]
          constructor
          · rintro (⟨a, rfl, ha⟩ | rfl)
            · exact ⟨c :: a, rfl, List.forall_mem_cons.mpr ⟨hc, ha⟩⟩
            · exact ⟨[], rfl, fun d hd => absurd hd List.not_mem_nil⟩
          · rintro ⟨_ | ⟨d, a⟩, hs, ha⟩
            · exact .inr hs.symm
            · exact .inl ⟨a, (List.cons.inj hs).2, (List.forall_mem_cons.mp ha).2⟩
      · next hc =>
          rw [List.mem_singleton]
          constructor
          · rintro rfl
            exact ⟨[], rfl, fun d hd => absurd hd List.not_mem_nil⟩
          · rintro ⟨_ | ⟨d, a⟩, hs, ha⟩
            · exact hs.symm
            · exact absurd ((List.cons.inj hs).1 ▸ (List.forall_mem_cons.mp ha).1) hc

/-- Few or many, the same rests are possible. -/
theorem mem_fewestRests : t ∈ fewestRests p s ↔ t ∈ manyRests p s := by
  induction s with
  | nil => exact Iff.rfl
  | cons c s ih =>
      unfold fewestRests manyRests
      split
      · rw [List.mem_cons, List.mem_append, List.mem_singleton, ih, or_comm]
      · exact Iff.rfl

@[simp] theorem mem_ways_empty : (cs, t) ∈ ways .empty s ↔ cs = [] ∧ s = t := by
  simp [eq_comm]

@[simp] theorem mem_ways_char : (cs, t) ∈ ways (.char p) s ↔ cs = [] ∧ ∃ c, s = c :: t ∧ p c := by
  cases s with
  | nil => simp
  | cons d s =>
      unfold ways
      split
      · next hd =>
          rw [List.mem_singleton]
          constructor
          · rintro ⟨⟩
            exact ⟨rfl, d, rfl, hd⟩
          · rintro ⟨rfl, c, ⟨⟩, -⟩
            rfl
      · next hd =>
          refine ⟨fun h => absurd h List.not_mem_nil, ?_⟩
          rintro ⟨-, c, ⟨⟩, hc⟩
          exact absurd hc hd

@[simp] theorem mem_ways_many :
    (cs, t) ∈ ways (.many p) s ↔ cs = [] ∧ ∃ a, s = a ++ t ∧ ∀ c ∈ a, p c := by
  rw [← mem_manyRests]
  simp [eq_comm, and_comm]

@[simp] theorem mem_ways_fewest :
    (cs, t) ∈ ways (.fewest p) s ↔ cs = [] ∧ ∃ a, s = a ++ t ∧ ∀ c ∈ a, p c := by
  rw [← mem_manyRests, ← mem_fewestRests]
  simp [eq_comm, and_comm]

@[simp] theorem mem_ways_maybe : (cs, t) ∈ ways (.maybe r) s ↔ (cs, t) ∈ ways r s ∨ cs = [] ∧ s = t := by
  simp [eq_comm]

@[simp] theorem mem_ways_seq : (cs, t) ∈ ways (.seq r r') s ↔
    ∃ as u bs, (as, u) ∈ ways r s ∧ (bs, t) ∈ ways r' u ∧ cs = as ++ bs := by
  simp only [ways, List.mem_flatMap, List.mem_map, Prod.exists, Prod.mk.injEq]
  constructor
  · rintro ⟨as, u, hr, bs, _, hr', rfl, rfl⟩
    exact ⟨as, u, bs, hr, hr', rfl⟩
  · rintro ⟨as, u, bs, hr, hr', rfl⟩
    exact ⟨as, u, hr, bs, t, hr', rfl, rfl⟩

@[simp] theorem mem_ways_lineEnd :
    (cs, t) ∈ ways .lineEnd s ↔ cs = [] ∧ s = t ∧ ∀ c ∈ t.head?, c = '\n' := by
  cases s with
  | nil =>
      unfold ways
      rw [List.mem_singleton]
      constructor
      · rintro ⟨⟩
        exact ⟨rfl, rfl, by simp⟩
      · rintro ⟨rfl, rfl, -⟩
        rfl
  | cons d s =>
      unfold ways
      split
      · next hd =>
          rw [List.mem_singleton]
          constructor
          · rintro ⟨⟩
            exact ⟨rfl, rfl, by simp [hd]⟩
          · rintro ⟨rfl, rfl, -⟩
            rfl
      · next hd =>
          refine ⟨fun h => absurd h List.not_mem_nil, ?_⟩
          rintro ⟨-, rfl, h⟩
          exact absurd (h d rfl) hd

@[simp] theorem mem_ways_lit : (cs, t) ∈ ways (lit w) s ↔ cs = [] ∧ s = w ++ t := by
  induction w generalizing s cs with
  | nil => exact mem_ways_empty
  | cons c w ih =>
      simp only [lit, mem_ways_seq, mem_ways_char, ih]
      constructor
      · rintro ⟨_, u, _, ⟨rfl, d, rfl, hd⟩, ⟨rfl, rfl⟩, rfl⟩
        rw [beq_iff_eq.mp hd]
        exact ⟨rfl, rfl⟩
      · rintro ⟨rfl, rfl⟩
        exact ⟨[], w ++ t, [], ⟨rfl, c, rfl, beq_self_eq_true c⟩, ⟨rfl, rfl⟩, rfl⟩

/-- What is left is the end of the text. -/
theorem suffix_of_mem_ways (h : (cs, t) ∈ ways r s) : t <:+ s := by
  induction r generalizing s t cs with
  | empty =>
      obtain ⟨-, rfl⟩ := mem_ways_empty.mp h
      exact List.suffix_refl s
  | char p =>
      obtain ⟨-, c, rfl, -⟩ := mem_ways_char.mp h
      exact List.suffix_cons c t
  | many p =>
      obtain ⟨-, a, rfl, -⟩ := mem_ways_many.mp h
      exact List.suffix_append a t
  | fewest p =>
      obtain ⟨-, a, rfl, -⟩ := mem_ways_fewest.mp h
      exact List.suffix_append a t
  | maybe r ih =>
      rcases mem_ways_maybe.mp h with h | ⟨-, rfl⟩
      · exact ih h
      · exact List.suffix_refl s
  | seq r r' ih ih' =>
      obtain ⟨as, u, bs, hr, hr', -⟩ := mem_ways_seq.mp h
      exact (ih' hr').trans (ih hr)
  | group r ih =>
      obtain ⟨⟨as, u⟩, hr, heq⟩ := List.mem_map.mp h
      obtain ⟨-, rfl⟩ := Prod.mk.inj heq
      exact ih hr
  | lineEnd =>
      obtain ⟨-, rfl, -⟩ := mem_ways_lineEnd.mp h
      exact List.suffix_refl s

theorem take_sub_length (a t : List Char) : (a ++ t).take ((a ++ t).length - t.length) = a := by
  rw [List.length_append, Nat.add_sub_cancel, List.take_left]

/-- A group captures what stands before the rest. -/
@[simp] theorem mem_ways_group :
    (cs, t) ∈ ways (.group r) s ↔ ∃ a bs, s = a ++ t ∧ (bs, t) ∈ ways r s ∧ cs = a :: bs := by
  simp only [ways, List.mem_map, Prod.exists, Prod.mk.injEq]
  constructor
  · rintro ⟨bs, u, hr, rfl, rfl⟩
    obtain ⟨a, rfl⟩ := suffix_of_mem_ways hr
    exact ⟨a, bs, rfl, hr, by rw [take_sub_length]⟩
  · rintro ⟨a, bs, rfl, hr, rfl⟩
    exact ⟨bs, t, hr, by rw [take_sub_length], rfl⟩

/-! ### One part after another -/

theorem mem_ways_lit_seq : (cs, t) ∈ ways (.seq (lit w) r) s ↔ ∃ u, s = w ++ u ∧ (cs, t) ∈ ways r u := by
  rw [mem_ways_seq]
  constructor
  · rintro ⟨_, u, bs, hw, hr, rfl⟩
    obtain ⟨rfl, rfl⟩ := mem_ways_lit.mp hw
    exact ⟨u, rfl, hr⟩
  · rintro ⟨u, rfl, hr⟩
    exact ⟨[], u, cs, mem_ways_lit.mpr ⟨rfl, rfl⟩, hr, rfl⟩

theorem mem_ways_many_seq : (cs, t) ∈ ways (.seq (.many p) r) s ↔
    ∃ a u, s = a ++ u ∧ (∀ c ∈ a, p c) ∧ (cs, t) ∈ ways r u := by
  rw [mem_ways_seq]
  constructor
  · rintro ⟨_, u, bs, hmany, hr, rfl⟩
    obtain ⟨rfl, a, rfl, ha⟩ := mem_ways_many.mp hmany
    exact ⟨a, u, rfl, ha, hr⟩
  · rintro ⟨a, u, rfl, ha, hr⟩
    exact ⟨[], u, cs, mem_ways_many.mpr ⟨rfl, a, rfl, ha⟩, hr, rfl⟩

theorem mem_ways_group_seq : (cs, t) ∈ ways (.seq (.group r) r') s ↔
    ∃ g gs u bs, s = g ++ u ∧ (gs, u) ∈ ways r s ∧ (bs, t) ∈ ways r' u ∧ cs = g :: (gs ++ bs) := by
  rw [mem_ways_seq]
  constructor
  · rintro ⟨_, u, bs, hgroup, hr', rfl⟩
    obtain ⟨g, gs, rfl, hr, rfl⟩ := mem_ways_group.mp hgroup
    exact ⟨g, gs, u, bs, rfl, hr, hr', rfl⟩
  · rintro ⟨g, gs, u, bs, hs, hr, hr', rfl⟩
    exact ⟨g :: gs, u, bs, mem_ways_group.mpr ⟨g, gs, hs, hr, rfl⟩, hr', rfl⟩

end

/-! ## What comes first -/

/-- The first way on from which `k` succeeds. -/
def first {β : Type*} (r : Regex) (s : List Char) (k : List (List Char) → List Char → Option β) : Option β :=
  (ways r s).findSome? fun m => k m.1 m.2

section
variable {β : Type*} {p : Char → Bool} {r r' : Regex} {a w s t u : List Char} {c : Char} {x : β}
  {k : List (List Char) → List Char → Option β}

theorem head?_ways (r : Regex) (s : List Char) : (ways r s).head? = first r s fun cs t => some (cs, t) := by
  unfold first
  cases ways r s <;> rfl

/-- What comes first is a way to match from which `k` succeeds. -/
theorem of_first (h : first r s k = some x) : ∃ cs t, (cs, t) ∈ ways r s ∧ k cs t = some x := by
  obtain ⟨⟨cs, t⟩, hm, hk⟩ := List.exists_of_findSome?_eq_some h
  exact ⟨cs, t, hm, hk⟩

theorem first_empty : first .empty s k = k [] s := by
  unfold first ways
  rw [List.findSome?_singleton]

theorem first_char (h : p c) : first (.char p) (c :: s) k = k [] s := by
  unfold first ways
  rw [if_pos h, List.findSome?_singleton]

theorem first_char_of_neg (h : ∀ c ∈ s.head?, p c = false) : first (.char p) s k = none := by
  cases s with
  | nil => rfl
  | cons c s =>
      unfold first ways
      rw [h c rfl]
      rfl

theorem findSome?_flatMap {α γ : Type*} (l : List α) (f : α → List γ) (g : γ → Option β) :
    (l.flatMap f).findSome? g = l.findSome? fun m => (f m).findSome? g := by
  induction l with
  | nil => rfl
  | cons m l ih =>
      rw [List.flatMap_cons, List.findSome?_append, ih, List.findSome?_cons]
      cases (f m).findSome? g <;> rfl

theorem first_seq : first (.seq r r') s k = first r s fun cs t => first r' t fun ds u => k (cs ++ ds) u := by
  unfold first
  rw [ways, findSome?_flatMap]
  refine congrArg (List.findSome? · (ways r s)) (funext fun m => ?_)
  rw [List.findSome?_map]
  rfl

theorem first_group :
    first (.group r) s k = first r s fun cs t => k (s.take (s.length - t.length) :: cs) t := by
  unfold first
  rw [ways, List.findSome?_map]
  rfl

theorem first_lit : first (lit w) (w ++ s) k = k [] s := by
  induction w generalizing k with
  | nil => exact first_empty
  | cons c w ih =>
      show first (.seq (.char (· == c)) (lit w)) (c :: (w ++ s)) k = _
      have hc : (fun d => d == c) c = true := beq_self_eq_true c
      rw [first_seq, first_char (p := (· == c)) hc, ih]
      rfl

/-- What may be there is there. -/
theorem first_maybe (h : first r s k = some x) : first (.maybe r) s k = some x := by
  unfold first at h ⊢
  rw [ways, List.findSome?_append, h, Option.some_or]

theorem first_lineEnd (h : ∀ c ∈ s.head?, c = '\n') : first .lineEnd s k = k [] s := by
  cases s with
  | nil => exact List.findSome?_singleton
  | cons c s =>
      unfold first ways
      rw [if_pos (h c rfl), List.findSome?_singleton]

theorem first_lineEnd_of_ne (h : c ≠ '\n') : first .lineEnd (c :: s) k = none := by
  unfold first ways
  rw [if_neg h]
  rfl

theorem first_many_cons (h : p c) :
    first (.many p) (c :: s) k = (first (.many p) s k).or (k [] (c :: s)) := by
  unfold first ways
  rw [manyRests, if_pos h, List.map_append, List.findSome?_append, List.map_singleton,
    List.findSome?_singleton]

/-- As many as possible may be none. -/
theorem first_many_of_neg (h : ∀ c ∈ s.head?, p c = false) : first (.many p) s k = k [] s := by
  cases s with
  | nil => exact List.findSome?_singleton
  | cons c s =>
      unfold first ways
      rw [manyRests, h c rfl, if_neg Bool.false_ne_true, List.map_singleton, List.findSome?_singleton]

/-- More of the same in front changes nothing, as it is tried first to take that too. -/
theorem first_many_append (ha : ∀ c ∈ a, p c) (h : first (.many p) s k = some x) :
    first (.many p) (a ++ s) k = some x := by
  induction a with
  | nil => exact h
  | cons c a ih =>
      obtain ⟨hc, ha⟩ := List.forall_mem_cons.mp ha
      rw [List.cons_append, first_many_cons hc, ih ha, Option.some_or]

theorem first_many_longest (ha : ∀ c ∈ a, p c) (hs : ∀ c ∈ s.head?, p c = false) (h : k [] s = some x) :
    first (.many p) (a ++ s) k = some x :=
  first_many_append ha ((first_many_of_neg hs).trans h)

theorem first_fewest_cons (h : p c) :
    first (.fewest p) (c :: s) k = (k [] (c :: s)).or (first (.fewest p) s k) := by
  unfold first ways
  rw [fewestRests, if_pos h, List.map_cons, List.findSome?_cons]
  cases k [] (c :: s) <;> rfl

/-- As few as possible are taken: no more than are enough. -/
theorem first_fewest (ha : ∀ c ∈ a, p c) (h : (k [] s).isSome) :
    ∃ b t, a ++ s = b ++ t ∧ b.length ≤ a.length ∧ (k [] t).isSome ∧
      first (.fewest p) (a ++ s) k = k [] t := by
  induction a with
  | nil =>
      refine ⟨[], s, rfl, Nat.le_refl 0, h, ?_⟩
      obtain ⟨x, hx⟩ := Option.isSome_iff_exists.mp h
      cases s with
      | nil => exact List.findSome?_singleton
      | cons c s =>
          unfold first ways
          rw [List.nil_append, fewestRests, List.map_cons, List.findSome?_cons, hx]
  | cons c a ih =>
      obtain ⟨hc, ha⟩ := List.forall_mem_cons.mp ha
      rw [List.cons_append, first_fewest_cons hc]
      cases hhere : k [] (c :: (a ++ s)) with
      | some x => exact ⟨[], _, rfl, Nat.zero_le _, by rw [hhere]; rfl, by rw [hhere, Option.some_or]⟩
      | none =>
          obtain ⟨b, t, happend, hlength, hsome, hfirst⟩ := ih ha
          refine ⟨c :: b, t, congrArg (c :: ·) happend, Nat.succ_le_succ hlength, hsome, ?_⟩
          rw [Option.none_or, hfirst]

/-! ### One part after another -/

theorem first_lit_seq : first (.seq (lit w) r) (w ++ s) k = first r s k := by
  rw [first_seq, first_lit]
  rfl

theorem first_lit_seq_of_ne (h : ∀ d ∈ s.head?, d ≠ c) : first (.seq (lit (c :: w)) r) s k = none := by
  have hc : ∀ d ∈ s.head?, (fun e => e == c) d = false := fun d hd => beq_eq_false_iff_ne.mpr (h d hd)
  rw [first_seq]
  show first (.seq (.char (· == c)) (lit w)) s _ = none
  rw [first_seq, first_char_of_neg hc]

theorem first_maybe_seq (h : first (.seq r r') s k = some x) : first (.seq (.maybe r) r') s k = some x := by
  rw [first_seq] at h ⊢
  exact first_maybe h

theorem first_many_seq (ha : ∀ c ∈ a, p c) (hs : ∀ c ∈ s.head?, p c = false) (h : first r s k = some x) :
    first (.seq (.many p) r) (a ++ s) k = some x := by
  rw [first_seq]
  exact first_many_longest ha hs h

theorem first_group_seq : first (.seq (.group r) r') s k = first r s fun cs t =>
    first r' t fun ds u => k (s.take (s.length - t.length) :: (cs ++ ds)) u := by
  rw [first_seq, first_group]
  rfl

/-- A group of characters ends where they end. -/
theorem first_plus_group (ha : ∀ c ∈ a, p c) (hne : a ≠ []) (hs : ∀ c ∈ s.head?, p c = false)
    (h : (first r s fun ds u => k (a :: ds) u) = some x) :
    first (.seq (.group (plus p)) r) (a ++ s) k = some x := by
  cases a with
  | nil => exact absurd rfl hne
  | cons c a =>
      obtain ⟨hc, ha⟩ := List.forall_mem_cons.mp ha
      have hcapture := take_sub_length (c :: a) s
      rw [first_group_seq, plus, first_seq, List.cons_append, first_char hc]
      refine first_many_longest ha hs ?_
      rw [← List.cons_append, hcapture]
      exact h

/-- As many as possible, up to a character: up to its last occurrence. -/
theorem first_many_last {f : List Char} (ha : ∀ d ∈ a, p d) (hc : p c) (hf : ∀ d ∈ f, p d ∧ d ≠ c)
    (hs : ∀ d ∈ s.head?, p d = false ∧ d ≠ c) (h : first r (f ++ s) k = some x) :
    first (.seq (.many p) (.seq (lit [c]) r)) (a ++ c :: (f ++ s)) k = some x := by
  have hbehind : first (.seq (.many p) (.seq (lit [c]) r)) (f ++ s) k = none := by
    clear h
    induction f with
    | nil =>
        rw [first_seq, List.nil_append, first_many_of_neg fun d hd => (hs d hd).1]
        exact first_lit_seq_of_ne fun d hd => (hs d hd).2
    | cons d f ih =>
        obtain ⟨⟨hd, hne⟩, hf⟩ := List.forall_mem_cons.mp hf
        have hrest := ih hf
        rw [first_seq] at hrest ⊢
        rw [List.cons_append, first_many_cons hd, hrest, Option.none_or]
        refine first_lit_seq_of_ne ?_
        rintro e ⟨⟩
        exact hne
  rw [first_seq] at hbehind ⊢
  refine first_many_append ha ?_
  rw [first_many_cons hc, hbehind, Option.none_or]
  exact first_lit_seq.trans h

/-- **The longest group**: between delimiters everything up to the last one is taken. -/
theorem first_longest {f o : List Char} (ha : ∀ d ∈ a, p d) (hc : p c) (hf : ∀ d ∈ f, p d ∧ d ≠ c)
    (hs : ∀ d ∈ s.head?, p d = false ∧ d ≠ c)
    (h : (first r (f ++ s) fun ds v => k ((o ++ (a ++ [c])) :: ds) v) = some x) :
    first (.seq (.group (concat [lit o, .many p, lit [c]])) r) (o ++ (a ++ c :: (f ++ s))) k = some x := by
  rw [first_group_seq]
  refine first_lit_seq.trans (first_many_last ha hc hf hs ?_)
  have hcapture := take_sub_length (o ++ (a ++ [c])) (f ++ s)
  simp only [List.append_assoc, List.cons_append, List.nil_append] at hcapture
  rw [List.foldr, first_empty, hcapture]
  exact h

/-- **The shortest group**: between delimiters as little is taken as lets the rest match. -/
theorem first_shortest {o e : List Char} (h : (first r u fun ds v => k ((o ++ (a ++ e)) :: ds) v).isSome) :
    ∃ b t, a ++ (e ++ u) = b ++ (e ++ t) ∧ b.length ≤ a.length ∧
      (first r t fun ds v => k ((o ++ (b ++ e)) :: ds) v).isSome ∧
      first (.seq (.group (concat [lit o, .fewest fun _ => true, lit e])) r) (o ++ (a ++ (e ++ u))) k =
        first r t fun ds v => k ((o ++ (b ++ e)) :: ds) v := by
  -- what is captured when this text is left
  let capture (t : List Char) : List Char :=
    (o ++ (a ++ (e ++ u))).take ((o ++ (a ++ (e ++ u))).length - t.length)
  have hcapture {b t : List Char} (happend : a ++ (e ++ u) = b ++ (e ++ t)) : capture t = o ++ (b ++ e) := by
    show (o ++ (a ++ (e ++ u))).take ((o ++ (a ++ (e ++ u))).length - t.length) = _
    rw [happend, ← List.append_assoc b, ← List.append_assoc o]
    exact take_sub_length (o ++ (b ++ e)) t
  let inner (cs : List (List Char)) (t : List Char) : Option β :=
    first r t fun ds v => k (capture t :: (cs ++ ds)) v
  have hclose (t : List Char) : first (.seq (lit e) .empty) (e ++ t) inner =
      first r t fun ds v => k (capture t :: ds) v := by
    rw [first_lit_seq, first_empty]
    rfl
  have hhere : (first (.seq (lit e) .empty) (e ++ u) inner).isSome := by
    rw [hclose, hcapture rfl]
    exact h
  obtain ⟨b, t', happend, hlength, hsome, hfirst⟩ :=
    first_fewest (p := fun _ => true) (a := a) (k := fun cs t => first (.seq (lit e) .empty) t
      fun ds u => inner (cs ++ ds) u) (fun _ _ => rfl) hhere
  obtain ⟨y, hy⟩ := Option.isSome_iff_exists.mp hsome
  obtain ⟨cs, t, hways, -⟩ := of_first hy
  obtain ⟨t, rfl, -⟩ := mem_ways_lit_seq.mp hways
  have hresult : first (.seq (.group (concat [lit o, .fewest fun _ => true, lit e])) r)
      (o ++ (a ++ (e ++ u))) k = first r t fun ds v => k ((o ++ (b ++ e)) :: ds) v := by
    have hopen : first (concat [lit o, .fewest fun _ => true, lit e]) (o ++ (a ++ (e ++ u))) inner =
        first (.seq (.fewest fun _ => true) (.seq (lit e) .empty)) (a ++ (e ++ u)) inner := first_lit_seq
    rw [first_group_seq]
    refine hopen.trans ?_
    rw [first_seq, hfirst, ← hcapture happend]
    exact hclose t
  refine ⟨b, t, happend, hlength, ?_, hresult⟩
  rw [← hcapture happend, ← hclose t]
  exact hsome

end

/-! ## The matches of a text -/

section
variable {r : Regex} {s t : List Char} {c : Char} {cs : List (List Char)} {skip : ℕ}

theorem finditer_drop (r : Regex) (skip : ℕ) (s : List Char) :
    finditer r skip s = finditer r 0 (s.drop skip) := by
  induction s generalizing skip with
  | nil => rw [List.drop_nil, finditer, finditer]
  | cons c s ih => cases skip with
      | zero => rfl
      | succ skip => exact ih skip

/-- A match, and those behind it. -/
theorem finditer_match (h : (ways r s).head? = some (cs, t)) (hlength : t.length < s.length) :
    finditer r 0 s = cs :: finditer r 0 t := by
  obtain ⟨a, rfl⟩ : t <:+ s := suffix_of_mem_ways (List.mem_of_mem_head? h)
  cases a with
  | nil => exact absurd hlength (Nat.lt_irrefl _)
  | cons c a =>
      rw [List.cons_append] at h ⊢
      rw [finditer, h]
      show cs :: finditer r ((a ++ t).length - t.length) (a ++ t) = _
      rw [finditer_drop, List.length_append, Nat.add_sub_cancel, List.drop_left]

theorem finditer_of_no_match (h : ways r (c :: s) = []) : finditer r 0 (c :: s) = finditer r 0 s := by
  rw [finditer, h]
  rfl

/-- Every match is one of the ways to match somewhere in the text. -/
theorem of_mem_finditer (h : cs ∈ finditer r skip s) : ∃ u t, u <:+ s ∧ (cs, t) ∈ ways r u := by
  induction s generalizing skip with
  | nil =>
      rw [finditer] at h
      cases h
  | cons c s ih =>
      have hrest {n : ℕ} (h : cs ∈ finditer r n s) : ∃ u t, u <:+ c :: s ∧ (cs, t) ∈ ways r u := by
        obtain ⟨u, t, hu, ht⟩ := ih h
        exact ⟨u, t, hu.trans (List.suffix_cons c s), ht⟩
      cases skip with
      | succ skip => exact hrest h
      | zero =>
          rw [finditer] at h
          split at h
          · next ds t hhead =>
              rcases List.mem_cons.mp h with rfl | h
              · exact ⟨c :: s, t, List.suffix_refl _, List.mem_of_mem_head? hhead⟩
              · exact hrest h
          · exact hrest h

end

end Regex
