import Mathlib.Algebra.Order.BigOperators.Group.List
import Mathlib.Algebra.Order.Group.Nat

/-!
# `Lexical` — paths of a file system, resolved by their text alone

A path is a text whose components stand between slashes. Resolving it walks from a directory along the
components: an empty one and `.` stay, `..` goes up, every other name goes down. Nothing is looked up, so this is
what a path means where no symbolic link is in the way. A path made of names only never goes up: it is found
where its components lead, below the directory it starts from.
-/

namespace Lexical

/-- A component of a path. -/
abbrev Part := List Char

/-- A directory, from the root of the file system on. -/
abbrev Dir := List Part

/-- The component stays where it is. -/
def Stays (part : Part) : Prop := part = [] ∨ part = ['.']

instance (part : Part) : Decidable (Stays part) := inferInstanceAs (Decidable (_ ∨ _))

/-- The component goes up. -/
def up : Part := ['.', '.']

/-- One component of a walk. -/
def enter (dir : Dir) (part : Part) : Dir :=
  if Stays part then dir else if part = up then dir.dropLast else dir ++ [part]

/-- The components of a path. -/
def parts (path : List Char) : List Part := path.splitOn '/'

/-- Where a path leads from a directory; a leading slash starts from the root. -/
def resolve (dir : Dir) (path : List Char) : Dir :=
  (parts path).foldl enter (if path.head? = some '/' then [] else dir)

/-- Strictly inside a directory. -/
def Below (root path : Dir) : Prop := root <+: path ∧ path ≠ root

/-- A component that names an entry of its directory. -/
structure Name (part : Part) : Prop where
  noSlash : '/' ∉ part
  moves : ¬ Stays part
  down : part ≠ up

/-- The path with these components. -/
def join (names : List Part) : List Char := ['/'].intercalate names

variable {dir : Dir} {path : List Char} {part : Part} {names : List Part}

/-- The components are made of the characters of the path, the slashes left out. -/
theorem of_mem_parts (h : part ∈ parts path) : ∀ c ∈ part, c ∈ path ∧ c ≠ '/' := by
  unfold parts at h
  induction path generalizing part with
  | nil =>
      rw [List.splitOn_nil, List.mem_singleton] at h
      simp [h]
  | cons d path ih =>
      have hbehind {part : Part} (h : part ∈ path.splitOn '/') : ∀ c ∈ part, c ∈ d :: path ∧ c ≠ '/' :=
        fun c hc => (ih h c hc).imp (List.mem_cons_of_mem d) id
      rw [List.splitOn_cons_eq_if_modifyHead] at h
      split at h
      · rcases List.mem_cons.mp h with rfl | h
        · simp
        · exact hbehind h
      · next hslash =>
          obtain ⟨first, rest, heq⟩ := List.exists_cons_of_ne_nil (List.splitOn_ne_nil '/' path)
          rw [heq, List.modifyHead_cons, List.mem_cons] at h
          rw [heq] at hbehind
          rcases h with rfl | h
          · refine List.forall_mem_cons.mpr ⟨⟨List.mem_cons_self, ?_⟩, hbehind List.mem_cons_self⟩
            simpa using hslash
          · exact hbehind (List.mem_cons_of_mem _ h)

theorem Name.ne_nil (h : Name part) : part ≠ [] := fun heq => h.moves (.inl heq)

/-- **A path is split into the components it was joined from.** -/
theorem parts_join (hnames : ∀ part ∈ names, '/' ∉ part) (hne : names ≠ []) : parts (join names) = names :=
  List.splitOn_intercalate '/' hnames hne

theorem join_parts (path : List Char) : join (parts path) = path := List.intercalate_splitOn '/'

/-- A walk along names only goes down. -/
theorem foldl_enter (hnames : ∀ part ∈ names, Name part) : names.foldl enter dir = dir ++ names := by
  induction names generalizing dir with
  | nil => exact (List.append_nil dir).symm
  | cons part names ih =>
      obtain ⟨hpart, hrest⟩ := List.forall_mem_cons.mp hnames
      have henter : enter dir part = dir ++ [part] := by
        unfold enter
        rw [if_neg hpart.moves, if_neg hpart.down]
      rw [List.foldl_cons, henter, ih hrest, List.append_assoc, List.singleton_append]

/-- The first component is what the path starts with. -/
theorem join_cons (part : Part) (names : List Part) :
    join (part :: names) = part ++ if names = [] then [] else '/' :: join names := by
  unfold join
  cases names with
  | nil => simp
  | cons next names => simp [List.intercalate_cons_cons]

theorem of_mem_join {c : Char} (h : c ∈ join names) : c = '/' ∨ ∃ part ∈ names, c ∈ part := by
  induction names with
  | nil => cases h
  | cons part names ih =>
      rw [join_cons, List.mem_append] at h
      rcases h with h | h
      · exact .inr ⟨part, List.mem_cons_self, h⟩
      · split at h
        · cases h
        · rcases List.mem_cons.mp h with rfl | h
          · exact .inl rfl
          · refine (ih h).imp id ?_
            rintro ⟨part, hpart, hc⟩
            exact ⟨part, List.mem_cons_of_mem _ hpart, hc⟩

theorem head?_join (h : part ≠ []) : (join (part :: names)).head? = part.head? := by
  rw [join_cons, List.head?_append_of_ne_nil _ h]

theorem getElem?_join (h : part ≠ []) {c : Char} (hc : c ≠ '/') :
    (join (part :: names))[1]? = some c ↔ part[1]? = some c := by
  rw [join_cons]
  match part, h with
  | [a], _ =>
      split
      · simp
      · simp [hc.symm]
  | a :: b :: part, _ => simp

theorem getLast?_join (hlast : names.getLast? = some part) (h : part ≠ []) :
    (join names).getLast? = part.getLast? := by
  induction names with
  | nil => cases hlast
  | cons first names ih =>
      rw [join_cons]
      cases names with
      | nil =>
          obtain rfl := Option.some.inj hlast
          simp
      | cons next names =>
          rw [List.getLast?_cons_cons] at hlast
          rw [if_neg (List.cons_ne_nil _ _), List.getLast?_append, List.getLast?_cons, ih hlast]
          cases hpart : part.getLast? with
          | none => exact absurd (List.getLast?_eq_none_iff.mp hpart) h
          | some c => rfl

/-- Leaving components out makes a path shorter. -/
theorem length_join_le_of_sublist {kept : List Part} (h : kept.Sublist names) (hne : kept ≠ []) :
    (join kept).length ≤ (join names).length := by
  have hlength (l : List Part) (hl : l ≠ []) : (join l).length + 1 = (l.map fun part => part.length + 1).sum := by
    induction l with
    | nil => exact absurd rfl hl
    | cons part l ih =>
        rw [join_cons, List.map_cons, List.sum_cons]
        by_cases hnil : l = []
        · simp [hnil]
        · rw [if_neg hnil, ← ih hnil, List.length_append, List.length_cons]
          omega
  have hsum := (h.map fun part => part.length + 1).sum_le_sum fun _ _ => Nat.zero_le _
  have hnames : names ≠ [] := fun hnil => hne (List.eq_nil_of_sublist_nil (hnil ▸ h))
  rw [← hlength kept hne, ← hlength names hnames] at hsum
  exact Nat.le_of_succ_le_succ hsum

/-- **A path of names leads down from any directory**, along its components and no further. -/
theorem resolve_join (hnames : ∀ part ∈ names, Name part) (hne : names ≠ []) :
    resolve dir (join names) = dir ++ names := by
  have hrelative : (join names).head? ≠ some '/' := by
    obtain ⟨first, rest, rfl⟩ := List.exists_cons_of_ne_nil hne
    have hfirst := hnames first List.mem_cons_self
    rw [head?_join hfirst.ne_nil]
    exact fun hhead => hfirst.noSlash (List.mem_of_mem_head? hhead)
  unfold resolve
  rw [parts_join (fun part hpart => (hnames part hpart).noSlash) hne, if_neg hrelative, foldl_enter hnames]

theorem below_append (hne : names ≠ []) : Below dir (dir ++ names) :=
  ⟨List.prefix_append dir names, fun heq => hne (List.append_right_eq_self.mp heq)⟩

example : resolve ["srv".toList] "a/../b/./c".toList = ["srv".toList, "b".toList, "c".toList] ∧
    resolve ["srv".toList] "/etc".toList = ["etc".toList] := by decide +kernel

end Lexical
