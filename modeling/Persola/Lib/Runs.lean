import Mathlib.Logic.Relation

/-!
# `Runs` — labelled transition systems, their runs and the invariant rule

A `System` is a set of initial states and an **executable** step: the label carries everything the
environment chooses (who moves, what an external call answers, what the clock reads), so `step` is a
function and a concrete run is checked by evaluating `exec`. `none` means the label is not enabled.

Runs come with a **step condition** `C : S → L → Prop`: `M.Run C` is a run each of whose steps meets `C`
in the state it starts from. With `C = always` these are all runs of the system.
-/

namespace Runs

variable {S L : Type*}

/-- A labelled transition system with an executable, label-determined step. -/
structure System (S L : Type*) where
  init : S → Prop
  step : S → L → Option S

/-- The step condition that every step meets. -/
def always : S → L → Prop := fun _ _ => True

namespace System

/-- One step from `s` to `t` under a label that meets `C` in `s`. -/
def Next (M : System S L) (C : S → L → Prop) (s t : S) : Prop :=
  ∃ l, C s l ∧ M.step s l = some t

/-- A finite run whose steps all meet `C`. -/
def Run (M : System S L) (C : S → L → Prop) : S → S → Prop :=
  Relation.ReflTransGen (M.Next C)

/-- `s` is reached from an initial state by a run whose steps all meet `C`. -/
def Reach (M : System S L) (C : S → L → Prop) (s : S) : Prop :=
  ∃ s₀, M.init s₀ ∧ M.Run C s₀ s

/-- `s` is reached by some run. -/
abbrev Reachable (M : System S L) (s : S) : Prop := M.Reach always s

variable {M : System S L} {C D : S → L → Prop}

theorem Run.refl (s : S) : M.Run C s s := Relation.ReflTransGen.refl

theorem Run.tail {s t u : S} {l : L} (h : M.Run C s t) (hc : C t l) (hs : M.step t l = some u) :
    M.Run C s u :=
  Relation.ReflTransGen.tail h ⟨l, hc, hs⟩

theorem Run.head {s t u : S} {l : L} (hc : C s l) (hs : M.step s l = some t) (h : M.Run C t u) :
    M.Run C s u :=
  Relation.ReflTransGen.head ⟨l, hc, hs⟩ h

/-- A run under a condition is a run under every weaker one. -/
theorem Run.mono (hCD : ∀ s l, C s l → D s l) {s t : S} (h : M.Run C s t) : M.Run D s t :=
  Relation.ReflTransGen.mono (fun _ _ ⟨l, hc, hs⟩ => ⟨l, hCD _ l hc, hs⟩) _ _ h

/-- Every run is a run without condition. -/
theorem Run.any {s t : S} (h : M.Run C s t) : M.Run always s t :=
  h.mono fun _ _ _ => trivial

theorem Reach.any {s : S} (h : M.Reach C s) : M.Reachable s :=
  let ⟨s₀, h0, hr⟩ := h
  ⟨s₀, h0, hr.any⟩

theorem Reach.tail {s t : S} {l : L} (h : M.Reach C s) (hc : C s l) (hs : M.step s l = some t) :
    M.Reach C t :=
  let ⟨s₀, h0, hr⟩ := h
  ⟨s₀, h0, hr.tail hc hs⟩

theorem Reach.init {s : S} (h : M.init s) : M.Reach C s := ⟨s, h, .refl s⟩

theorem Reach.run {s t : S} (h : M.Reach C s) (hr : M.Run C s t) : M.Reach C t :=
  let ⟨s₀, h0, hr0⟩ := h
  ⟨s₀, h0, Relation.ReflTransGen.trans hr0 hr⟩

/-! ## The invariant rules -/

/-- **Invariant rule along a run**: what every step preserves, the run preserves. -/
theorem Run.invariant {I : S → Prop} (hstep : ∀ s l t, I s → C s l → M.step s l = some t → I t)
    {s t : S} (h : M.Run C s t) (hs : I s) : I t := by
  induction h with
  | refl => exact hs
  | tail _ hn ih =>
      obtain ⟨l, hc, hst⟩ := hn
      exact hstep _ l _ ih hc hst

/-- **Invariant rule**: what holds initially and is preserved by every step holds of every reached
    state. -/
theorem Reach.invariant {I : S → Prop} (hinit : ∀ s, M.init s → I s)
    (hstep : ∀ s l t, I s → C s l → M.step s l = some t → I t) {s : S} (h : M.Reach C s) : I s :=
  let ⟨s₀, h0, hr⟩ := h
  hr.invariant hstep (hinit s₀ h0)

/-- **Frame rule along a run**: a reflexive, transitive relation that every step from an `I`-state
    establishes relates the two ends of a run. -/
theorem Run.rel {I : S → Prop} {R : S → S → Prop} (hrefl : ∀ s, R s s)
    (htrans : ∀ s t u, R s t → R t u → R s u)
    (hstep : ∀ s l t, I s → C s l → M.step s l = some t → I t ∧ R s t)
    {s t : S} (h : M.Run C s t) (hs : I s) : R s t := by
  have key : I t ∧ R s t := by
    induction h with
    | refl => exact ⟨hs, hrefl _⟩
    | tail _ hn ih =>
        obtain ⟨l, hc, hst⟩ := hn
        obtain ⟨hI, hR⟩ := hstep _ l _ ih.1 hc hst
        exact ⟨hI, htrans _ _ _ ih.2 hR⟩
  exact key.2

/-! ## Executing a list of labels -/

/-- Run the labels in order; `none` as soon as one is not enabled. -/
def exec (M : System S L) : S → List L → Option S
  | s, [] => some s
  | s, l :: ls => (M.step s l).bind fun t => exec M t ls

/-- Every step of the execution of the labels from `s` meets `C`. -/
def Meets (M : System S L) (C : S → L → Prop) : S → List L → Prop
  | _, [] => True
  | s, l :: ls => C s l ∧ ∀ t, M.step s l = some t → Meets M C t ls

theorem exec_cons {s t : S} {l : L} {ls : List L} (h : M.step s l = some t) :
    M.exec s (l :: ls) = M.exec t ls := by
  simp [exec, h]

theorem exec_append {s : S} {ls ls' : List L} :
    M.exec s (ls ++ ls') = (M.exec s ls).bind fun t => M.exec t ls' := by
  induction ls generalizing s with
  | nil => rfl
  | cons l ls ih =>
      rw [List.cons_append, exec, exec, Option.bind_assoc]
      exact congrArg _ (funext fun t => ih)

/-- The step condition along an execution can be evaluated. -/
instance decidableMeets [∀ s l, Decidable (C s l)] : ∀ s ls, Decidable (M.Meets C s ls)
  | _, [] => .isTrue trivial
  | s, l :: ls =>
      match h : M.step s l with
      | none => decidable_of_iff (C s l) (by simp [Meets, h])
      | some t =>
          have := decidableMeets t ls
          decidable_of_iff (C s l ∧ M.Meets C t ls) (by simp [Meets, h])

/-- An execution whose steps meet the condition is a run under it. -/
theorem run_of_meets {ls : List L} {s t : S} (h : M.exec s ls = some t) (hm : M.Meets C s ls) :
    M.Run C s t := by
  induction ls generalizing s with
  | nil =>
      have hst : s = t := by simpa [exec] using h
      exact hst ▸ .refl s
  | cons l ls ih =>
      rw [exec, Option.bind_eq_some_iff] at h
      obtain ⟨u, hu, ht⟩ := h
      exact .head hm.1 hu (ih ht (hm.2 u hu))

theorem meets_always {s : S} {ls : List L} : M.Meets always s ls := by
  induction ls generalizing s with
  | nil => trivial
  | cons l ls ih => exact ⟨trivial, fun _ _ => ih⟩

/-- A condition that all the labels meet in every state. -/
theorem meets_of_forall {ls : List L} (h : ∀ l ∈ ls, ∀ s, C s l) (s : S) : M.Meets C s ls := by
  induction ls generalizing s with
  | nil => trivial
  | cons l ls ih =>
      exact ⟨h l List.mem_cons_self s, fun t _ => ih (fun m hm => h m (List.mem_cons_of_mem l hm)) t⟩

/-- An execution is a run. -/
theorem run_of_exec {ls : List L} {s t : S} (h : M.exec s ls = some t) : M.Run always s t :=
  run_of_meets h meets_always

/-- An execution from an initial state ends in a reachable one. -/
theorem reachable_of_exec {ls : List L} {s₀ s : S} (h0 : M.init s₀) (h : M.exec s₀ ls = some s) :
    M.Reachable s :=
  ⟨s₀, h0, run_of_exec h⟩

/-- The end of an execution, when a test on it evaluates to true. -/
theorem exists_of_exec {p : S → Bool} {ls : List L} {s₀ : S} (h : (M.exec s₀ ls).any p = true) :
    ∃ s, M.exec s₀ ls = some s ∧ p s = true :=
  (Option.any_eq_true ..).mp h

/-- **Condition rule**: if a step of a run keeps `P` exactly when it meets `C`, the run keeps `P` exactly
    when all its steps meet `C`. -/
theorem exec_iff {I P : S → Prop}
    (hstep : ∀ s l t, I s → M.step s l = some t → I t ∧ (P t ↔ P s ∧ C s l))
    {ls : List L} {s t : S} (hs : I s) (h : M.exec s ls = some t) :
    P t ↔ P s ∧ M.Meets C s ls := by
  induction ls generalizing s with
  | nil =>
      have hst : s = t := by simpa [exec] using h
      simp [Meets, hst]
  | cons l ls ih =>
      rw [exec, Option.bind_eq_some_iff] at h
      obtain ⟨u, hu, ht⟩ := h
      obtain ⟨hI, hP⟩ := hstep s l u hs hu
      rw [ih hI ht, hP, Meets, and_assoc]
      refine and_congr_right fun _ => and_congr_right fun _ => ?_
      exact ⟨fun hm t' ht' => Option.some.inj (hu.symm.trans ht') ▸ hm, fun hm => hm u hu⟩

/-! ## What is left to do -/

/-- **Counting rule**: what is left bounds the work of an execution, if each step of work leaves less and no other
    leaves more. -/
theorem exec_countP_le {I : S → Prop} (left : S → Nat) (work : L → Bool)
    (hstep : ∀ s l t, I s → M.step s l = some t → I t ∧ left t + (if work l then 1 else 0) ≤ left s)
    {ls : List L} {s t : S} (hs : I s) (h : M.exec s ls = some t) :
    I t ∧ left t + ls.countP work ≤ left s := by
  induction ls generalizing s with
  | nil =>
      obtain rfl : s = t := Option.some.inj h
      exact ⟨hs, Nat.le_refl _⟩
  | cons l ls ih =>
      rw [exec, Option.bind_eq_some_iff] at h
      obtain ⟨u, hu, hut⟩ := h
      obtain ⟨hI, hless⟩ := hstep s l u hs hu
      obtain ⟨ht, hrest⟩ := ih hI hut
      refine ⟨ht, ?_⟩
      rw [List.countP_cons]
      omega

/-- **Progress rule**: where what is not done can get to where less is left, it can get done. -/
theorem exists_exec {I P : S → Prop} (left : S → Nat)
    (hstep : ∀ s, I s → ¬ P s → ∃ ls t, M.exec s ls = some t ∧ I t ∧ left t < left s) {s : S} (hs : I s) :
    ∃ ls t, M.exec s ls = some t ∧ P t := by
  induction hleft : left s using Nat.strongRecOn generalizing s with
  | ind n ih =>
      by_cases hP : P s
      · exact ⟨[], s, rfl, hP⟩
      · obtain ⟨ls, t, hrun, hI, hless⟩ := hstep s hs hP
        obtain ⟨ls', u, hrest, hu⟩ := ih (left t) (hleft ▸ hless) hI rfl
        exact ⟨ls ++ ls', u, by rw [exec_append, hrun, Option.bind_some, hrest], hu⟩

/-! ## What holds in every state of a run -/

/-- `P` holds in every state the execution of the labels from `s₀` passes, both ends included. -/
def Throughout (M : System S L) (P : S → Prop) (s₀ : S) (ls : List L) : Prop :=
  ∀ pre post s, ls = pre ++ post → M.exec s₀ pre = some s → P s

theorem Throughout.start {P : S → Prop} {s₀ : S} {ls : List L} (h : M.Throughout P s₀ ls) : P s₀ :=
  h [] ls s₀ rfl rfl

/-- The states of an execution are the first one and those of the rest. -/
theorem throughout_cons {P : S → Prop} {s t : S} {l : L} {ls : List L} (hst : M.step s l = some t) :
    M.Throughout P s (l :: ls) ↔ P s ∧ M.Throughout P t ls := by
  constructor
  · intro h
    refine ⟨h.start, fun pre post u hls hu => h (l :: pre) post u ?_ ?_⟩
    · rw [hls, List.cons_append]
    · rw [exec_cons hst, hu]
  · rintro ⟨hs, h⟩ pre post u hls hu
    cases pre with
    | nil =>
        obtain rfl := Option.some.inj hu
        exact hs
    | cons l' pre =>
        obtain ⟨rfl, hls'⟩ := List.cons.inj hls
        rw [exec_cons hst] at hu
        exact h pre post u hls' hu

/-- **Throughout rule**: if a step from a state with `P` leads to one with `P` exactly when it meets `C`,
    then `P` holds throughout a run exactly when all its steps meet `C`. -/
theorem throughout_iff {I P : S → Prop}
    (hstep : ∀ s l t, I s → P s → M.step s l = some t → I t ∧ (P t ↔ C s l))
    {ls : List L} {s t : S} (hs : I s) (hP : P s) (h : M.exec s ls = some t) :
    M.Throughout P s ls ↔ M.Meets C s ls := by
  induction ls generalizing s with
  | nil =>
      refine iff_of_true (fun pre post u hls hu => ?_) trivial
      obtain ⟨rfl, -⟩ := List.append_eq_nil_iff.mp hls.symm
      obtain rfl := Option.some.inj hu
      exact hP
  | cons l ls ih =>
      rw [exec, Option.bind_eq_some_iff] at h
      obtain ⟨u, hu, ht⟩ := h
      obtain ⟨hI, hPu⟩ := hstep s l u hs hP hu
      have hmeets : (∀ v, M.step s l = some v → M.Meets C v ls) ↔ M.Meets C u ls :=
        ⟨fun hm => hm u hu, fun hm v hv => Option.some.inj (hu.symm.trans hv) ▸ hm⟩
      rw [throughout_cons hu, Meets, hmeets, ← hPu]
      constructor
      · rintro ⟨-, hrest⟩
        exact ⟨hrest.start, (ih hI hrest.start ht).mp hrest⟩
      · rintro ⟨hp, hrest⟩
        exact ⟨hP, (ih hI hp ht).mpr hrest⟩

/-! ## What a run keeps from any of its states to any later one -/

/-- `R` holds from every state of the execution to every later one. -/
def Along (M : System S L) (R : S → S → Prop) (s₀ : S) (ls : List L) : Prop :=
  ∀ pre mid post s t, ls = pre ++ mid ++ post → M.exec s₀ pre = some s → M.exec s mid = some t → R s t

/-- The step condition that the step keeps `R`. -/
def keeps (M : System S L) (R : S → S → Prop) (s : S) (l : L) : Prop :=
  ∀ t, M.step s l = some t → R s t

/-- **History rule**: a reflexive, transitive relation holds along a run exactly when every step keeps
    it. -/
theorem along_iff {R : S → S → Prop} (hrefl : ∀ s, R s s)
    (htrans : ∀ s t u, R s t → R t u → R s u) {s₀ : S} {ls : List L} :
    M.Along R s₀ ls ↔ M.Meets (M.keeps R) s₀ ls := by
  constructor
  · intro h
    induction ls generalizing s₀ with
    | nil => trivial
    | cons l ls ih =>
        refine ⟨fun t ht => h [] [l] ls s₀ t rfl rfl (by simp [exec, ht]), fun t ht => ih ?_⟩
        intro pre mid post s u hls hpre hmid
        exact h (l :: pre) mid post s u (by rw [hls]; rfl) ((exec_cons ht).trans hpre) hmid
  · intro h pre mid post s t hls hpre hmid
    -- first along the middle part, from its first state on
    have hkeep : ∀ (mid : List L) (s t : S), M.Meets (M.keeps R) s (mid ++ post) →
        M.exec s mid = some t → R s t := by
      intro mid
      induction mid with
      | nil =>
          intro s t _ hmid
          have hst : s = t := by simpa [exec] using hmid
          exact hst ▸ hrefl s
      | cons l mid ih =>
          intro s t hm hmid
          rw [exec, Option.bind_eq_some_iff] at hmid
          obtain ⟨u, hu, hut⟩ := hmid
          exact htrans _ _ _ (hm.1 u hu) (ih u t (hm.2 u hu) hut)
    subst hls
    induction pre generalizing s₀ with
    | nil =>
        have hst : s₀ = s := by simpa [exec] using hpre
        exact hkeep mid s t (hst ▸ h) hmid
    | cons l pre ih =>
        rw [exec, Option.bind_eq_some_iff] at hpre
        obtain ⟨u, hu, hus⟩ := hpre
        exact ih hus (h.2 u hu)

/-- A condition that keeps an invariant and under it implies another one implies it along executions. -/
theorem meets_mono {I : S → Prop} {C D : S → L → Prop}
    (hstep : ∀ s l t, I s → C s l → M.step s l = some t → I t)
    (hCD : ∀ s l, I s → (M.step s l).isSome → C s l → D s l)
    {ls : List L} {s t : S} (hs : I s) (h : M.exec s ls = some t) (hm : M.Meets C s ls) :
    M.Meets D s ls := by
  induction ls generalizing s with
  | nil => trivial
  | cons l ls ih =>
      rw [exec, Option.bind_eq_some_iff] at h
      obtain ⟨u, hu, hut⟩ := h
      refine ⟨hCD s l hs (by simp [hu]) hm.1, fun v hv => ?_⟩
      obtain rfl : u = v := Option.some.inj (hu.symm.trans hv)
      exact ih (hstep s l u hs hm.1 hu) hut (hm.2 u hu)

/-- Conditions that agree at every enabled step agree along executions. -/
theorem meets_congr {C D : S → L → Prop} (hCD : ∀ s l, (M.step s l).isSome → (C s l ↔ D s l))
    {ls : List L} {s t : S} (h : M.exec s ls = some t) : M.Meets C s ls ↔ M.Meets D s ls :=
  ⟨meets_mono (I := fun _ => True) (fun _ _ _ _ _ _ => trivial) (fun s l _ hl => (hCD s l hl).mp)
      trivial h,
    meets_mono (I := fun _ => True) (fun _ _ _ _ _ _ => trivial) (fun s l _ hl => (hCD s l hl).mpr)
      trivial h⟩

end System

/-! ## Loops over a list that may raise -/

section Fold

variable {σ α : Type*} {f : σ → α → Option σ} {I : List α → σ → Prop}

/-- **Loop rule**: an invariant over what is left to do that every round keeps holds at the end. -/
theorem foldlM_invariant (hstep : ∀ a as s t, I (a :: as) s → f s a = some t → I as t) {as : List α} :
    ∀ {s t : σ}, I as s → as.foldlM f s = some t → I [] t := by
  induction as with
  | nil =>
      intro s t hs h
      obtain rfl : s = t := Option.some.inj h
      exact hs
  | cons a as ih =>
      intro s t hs h
      rw [List.foldlM_cons] at h
      obtain ⟨u, hu, hrest⟩ := Option.bind_eq_some_iff.mp h
      exact ih (hstep a as s u hs hu) hrest

/-- **The loop completes iff each round would**, when what a round needs does not depend on the others. -/
theorem foldlM_isSome_iff {ok : α → Prop} (hok : ∀ a as s, I (a :: as) s → ((f s a).isSome ↔ ok a))
    (hstep : ∀ a as s t, I (a :: as) s → f s a = some t → I as t) {as : List α} :
    ∀ {s : σ}, I as s → ((as.foldlM f s).isSome ↔ ∀ a ∈ as, ok a) := by
  induction as with
  | nil => simp
  | cons a as ih =>
      intro s hs
      rw [List.foldlM_cons, List.forall_mem_cons, ← hok a as s hs]
      cases h : f s a with
      | none => simp
      | some t =>
          rw [← ih (hstep a as s t hs h)]
          simp

end Fold

end Runs
