import Persola.City.Scale

/-!
# `City.Accounting` — every slot is free, held or lost

For each semaphore the free slots, the slots held by calls still under way and the slots left behind by
calls that ended in `acquire` always add up to the cap (`State.Books`). So the accounting without the last
term is right exactly as long as nothing was left behind, and a step leaves slots behind exactly when it
cancels a call that holds some.
-/

namespace Persola.City.Scale

open Runs

/-! ## Free slots under the governor's operations -/

/-- The free slots of a semaphore; one not made yet has them all. -/
def Governor.free (cfg : ScaleConfig) (g : Governor) (sem : Sem) : ℕ :=
  (g.value sem).getD (cfg.cap sem)

section
variable {cfg : ScaleConfig} {g g' : Governor} {a sem : Sem}

@[simp] theorem Governor.free_ensure : (g.ensure cfg a).free cfg sem = g.free cfg sem := by
  unfold Governor.ensure Governor.free
  split
  · rfl
  · next h =>
      by_cases hs : sem = a
      · subst hs; simp [h]
      · simp [hs]

theorem Governor.free_take (cfg : ScaleConfig) (sem : Sem) (h : g.take a = some g') :
    g'.free cfg sem + [a].count sem = g.free cfg sem := by
  unfold Governor.take at h
  split at h
  · next v hv =>
      obtain rfl := Option.some.inj h
      by_cases hs : sem = a
      · subst hs; simp [Governor.free, hv]
      · simp [Governor.free, hs, Ne.symm hs]
  · cases h

/-- A slot given back is free again, provided the semaphore exists. -/
theorem Governor.free_give (ha : (g.value a).isSome) :
    (g.give a).free cfg sem = g.free cfg sem + [a].count sem := by
  obtain ⟨v, hv⟩ := Option.isSome_iff_exists.mp ha
  by_cases hs : sem = a
  · subst hs; simp [Governor.free, Governor.give, hv]
  · simp [Governor.free, Governor.give, hs, Ne.symm hs]

/-- Giving back makes no semaphore and forgets none. -/
@[simp] theorem Governor.isSome_give : ((g.give a).value sem).isSome = (g.value sem).isSome := by
  by_cases hs : sem = a
  · subst hs; simp [Governor.give]
  · simp [Governor.give, hs]

end

/-! ## One call -/

/-- What a move of call `c` to `stage` has to do to the free slots: they change by what the call holds
    or leaves behind. -/
def Balanced (cfg : ScaleConfig) (g : Governor) (c : Call) (g' : Governor) (stage : Stage) : Prop :=
  let c' : Call := { c with stage }
  ∀ sem, g'.free cfg sem + (c'.held ++ c'.leaked).count sem
    = g.free cfg sem + (c.held ++ c.leaked).count sem

section
variable {cfg : ScaleConfig} {g g' : Governor} {c : Call} {stage : Stage}

theorem acquire_balanced (h : acquire cfg g c = some (g', stage)) : Balanced cfg g c g' stage := by
  obtain ⟨req, st⟩ := c
  intro sem
  cases st with
  | atFamilySem | atDistrictSem =>
      cases h
      simp [Call.held, Call.leaked]
  | atJobSem =>
      simp only [acquire] at h
      split at h <;> cases h <;> simp [Call.held, Call.leaked]
  | atGlobal =>
      obtain ⟨g₁, ht, heq⟩ := Option.map_eq_some_iff.mp h
      cases heq
      have := Governor.free_take cfg sem ht
      simpa [Call.held, Call.leaked] using this
  | atFamily =>
      obtain ⟨g₁, ht, heq⟩ := Option.map_eq_some_iff.mp h
      cases heq
      have := Governor.free_take cfg sem ht
      simp only [Call.held, Call.leaked, List.append_nil, List.count_cons, List.count_nil] at this ⊢
      omega
  | atDistrict =>
      obtain ⟨g₁, ht, heq⟩ := Option.map_eq_some_iff.mp h
      have := Governor.free_take cfg sem ht
      cases hj : req.jobKey with
      | none =>
          simp only [hj] at heq
          cases heq
          simp only [Governor.free, Call.held, Call.leaked, hj, Option.map_none, Option.toList_none,
            List.append_nil, List.count_cons, List.count_nil] at this ⊢
          omega
      | some j =>
          simp only [hj] at heq
          cases heq
          simp only [Call.held, Call.leaked, List.append_nil, List.count_cons,
            List.count_nil] at this ⊢
          omega
  | atJob =>
      simp only [acquire] at h
      cases hj : req.jobKey with
      | none => simp [hj] at h
      | some j =>
          rw [hj] at h
          obtain ⟨g₁, ht, heq⟩ := Option.map_eq_some_iff.mp h
          cases heq
          have := Governor.free_take cfg sem ht
          simp only [Governor.free, Call.held, Call.leaked, hj, Option.map_some, Option.toList_some,
            List.append_nil, List.count_append, List.count_cons, List.count_nil] at this ⊢
          omega
  | admitted | released | gone leaked => cases h

theorem interrupt_balanced {e : Interrupt} (hc : ∀ sem ∈ c.held, (g.value sem).isSome)
    (h : interrupt g c e = some (g', stage)) : Balanced cfg g c g' stage := by
  obtain ⟨req, st⟩ := c
  intro sem
  cases st with
  | atFamilySem | atDistrictSem | atJobSem | atGlobal => cases h; rfl
  | atFamily | atDistrict | atJob =>
      cases e with
      | cancelled =>
          -- no handler runs: what was held is left behind
          cases h
          simp [Call.held, Call.leaked]
      | exception =>
          cases h
          simp only [Call.held, List.forall_mem_cons] at hc
          simp only [Call.held, Call.leaked, Governor.free_give, Governor.isSome_give, hc,
            List.append_nil, List.count_nil, List.count_cons, Nat.add_zero, Nat.zero_add]
          try omega
  | admitted | released | gone leaked => cases h

theorem release_balanced (hc : ∀ sem ∈ c.held, (g.value sem).isSome)
    (h : release g c = some (g', stage)) : Balanced cfg g c g' stage := by
  obtain ⟨req, st⟩ := c
  intro sem
  cases st with
  | admitted =>
      set dk := Sem.district (shardForDistrict req.district) with hdk
      -- the counters play no part in the free slots
      cases hj : req.jobKey with
      | none =>
          simp only [release, hj, Option.some.injEq, Prod.mk.injEq] at h
          obtain ⟨rfl, rfl⟩ := h
          change (((g.give dk).give (.family req.family)).give .global).free cfg sem + 0 = _
          simp only [Call.held, hj, ← hdk, Option.map_none, Option.toList_none, List.append_nil,
            List.forall_mem_cons] at hc
          simp only [Call.held, Call.leaked, hj, ← hdk, Governor.free_give, Governor.isSome_give, hc,
            Option.map_none, Option.toList_none, List.append_nil, List.count_nil, List.count_cons]
          omega
      | some j =>
          simp only [release, hj, Option.some.injEq, Prod.mk.injEq] at h
          obtain ⟨rfl, rfl⟩ := h
          change ((((g.give (.job j)).give dk).give (.family req.family)).give .global).free cfg sem
            + 0 = _
          simp only [Call.held, hj, ← hdk, Option.map_some, Option.toList_some, List.cons_append,
            List.nil_append, List.forall_mem_cons] at hc
          simp only [Call.held, Call.leaked, hj, ← hdk, Governor.free_give, Governor.isSome_give, hc,
            Option.map_some, Option.toList_some, List.append_nil, List.count_append, List.count_nil,
            List.count_cons]
          omega
  | atFamilySem | atDistrictSem | atJobSem | atGlobal | atFamily | atDistrict | atJob | released
    | gone leaked => cases h

/-- Only a call under way moves, and a cancellation leaves behind all it holds; nothing else leaves
    anything behind. -/
theorem leaked_interrupt {e : Interrupt} (h : interrupt g c e = some (g', stage)) :
    c.leaked = [] ∧ ({ c with stage } : Call).leaked = if e = .cancelled then c.held else [] := by
  obtain ⟨req, st⟩ := c
  cases st with
  | atFamilySem | atDistrictSem | atJobSem | atGlobal => cases h; simp [Call.leaked, Call.held]
  | atFamily | atDistrict | atJob => cases e <;> cases h <;> exact ⟨rfl, rfl⟩
  | admitted | released | gone leaked => cases h

theorem leaked_acquire (h : acquire cfg g c = some (g', stage)) :
    c.leaked = [] ∧ ({ c with stage } : Call).leaked = [] := by
  obtain ⟨req, st⟩ := c
  cases st with
  | atFamilySem | atDistrictSem => cases h; exact ⟨rfl, rfl⟩
  | atJobSem => simp only [acquire] at h; split at h <;> cases h <;> exact ⟨rfl, rfl⟩
  | atGlobal | atFamily =>
      obtain ⟨g₁, -, heq⟩ := Option.map_eq_some_iff.mp h
      cases heq
      exact ⟨rfl, rfl⟩
  | atDistrict =>
      obtain ⟨g₁, -, heq⟩ := Option.map_eq_some_iff.mp h
      cases hj : req.jobKey <;> simp only [hj] at heq <;> cases heq <;> exact ⟨rfl, rfl⟩
  | atJob =>
      cases hj : req.jobKey with
      | none => simp [acquire, hj] at h
      | some j =>
          simp only [acquire, hj] at h
          obtain ⟨g₁, -, heq⟩ := Option.map_eq_some_iff.mp h
          cases heq
          exact ⟨rfl, rfl⟩
  | admitted | released | gone leaked => cases h

theorem leaked_release (h : release g c = some (g', stage)) :
    c.leaked = [] ∧ ({ c with stage } : Call).leaked = [] := by
  obtain ⟨req, st⟩ := c
  cases st with
  | admitted => cases h; exact ⟨rfl, rfl⟩
  | atFamilySem | atDistrictSem | atJobSem | atGlobal | atFamily | atDistrict | atJob | released
    | gone leaked => cases h

end

/-! ## All calls -/

/-- Slots of `sem` held by the calls under way. -/
def State.held (s : State) (sem : Sem) : ℕ := Pool.total (fun c => c.held.count sem) s.calls

/-- Slots of `sem` that calls left behind. -/
def State.lost (s : State) (sem : Sem) : ℕ := Pool.total (fun c => c.leaked.count sem) s.calls

/-- **The books**: free, held and lost slots add up to the cap. -/
def State.Books (cfg : ScaleConfig) (s : State) : Prop :=
  ∀ sem, s.gov.free cfg sem + s.held sem + s.lost sem = cfg.cap sem

/-- The accounting one expects: free and held slots add up to the cap. -/
def State.Accounted (cfg : ScaleConfig) (s : State) : Prop :=
  ∀ sem, s.gov.free cfg sem + s.held sem = cfg.cap sem

/-- No call left a slot behind. -/
def State.NoneLost (s : State) : Prop := ∀ c ∈ s.calls, c.leaked = []

/-- No call is cancelled while it holds a slot: a cancellation may only arrive up to the wait for the
    global slot. -/
def CancelsEmptyHanded (s : State) (a : Action) : Prop :=
  ∀ i c, a = .interrupt i .cancelled → s.calls[i]? = some c → c.held = []

section
variable {cfg : ScaleConfig} {s t : State}

theorem books_init (h : (system cfg).init s) : s.Books cfg := by
  obtain rfl := h
  intro sem
  by_cases hs : sem = .global <;> simp [Governor.free, Governor.new, State.held, State.lost, hs,
    ScaleConfig.cap]

/-- A semaphore someone holds has been made: before it is made, all its slots are free. -/
theorem State.Books.made (hs : s.Books cfg) {c : Call} (hc : c ∈ s.calls) {sem : Sem}
    (hsem : sem ∈ c.held) : (s.gov.value sem).isSome := by
  rw [Option.isSome_iff_ne_none]
  intro hnone
  have hb := hs sem
  rw [Governor.free, hnone, Option.getD_none] at hb
  have hzero : s.held sem = 0 := by omega
  have hcount := Pool.total_eq_zero_iff.mp hzero c hc
  exact List.count_eq_zero.mp hcount hsem

theorem accounted_iff (hs : s.Books cfg) : s.Accounted cfg ↔ s.NoneLost := by
  have hlost : s.Accounted cfg ↔ ∀ sem, s.lost sem = 0 :=
    forall_congr' fun sem => by have := hs sem; omega
  rw [hlost]
  constructor
  · intro h c hc
    refine List.eq_nil_iff_forall_not_mem.mpr fun sem hsem => ?_
    exact List.count_eq_zero.mp (Pool.total_eq_zero_iff.mp (h sem) c hc) hsem
  · intro h sem
    exact Pool.total_eq_zero_iff.mpr fun c hc => by simp [h c hc]

/-- The moves of a state, as a move of one of its calls. -/
theorem State.move_eq_some {i : ℕ} {f : Governor → Call → Option (Governor × Stage)}
    (h : s.move i f = some t) :
    ∃ c gov stage, s.calls[i]? = some c ∧ f s.gov c = some (gov, stage) ∧
      t = ⟨gov, s.calls.set i { c with stage }⟩ := by
  simp only [State.move, Option.bind_eq_bind, Option.bind_eq_some_iff] at h
  obtain ⟨c, hc, ⟨gov, stage⟩, hf, ht⟩ := h
  exact ⟨c, gov, stage, hc, hf, (Option.some.inj ht).symm⟩

/-- A balanced move of one call keeps the books. -/
theorem State.Books.set (hs : s.Books cfg) {i : ℕ} {c : Call} (hc : s.calls[i]? = some c)
    {gov : Governor} {stage : Stage} (hb : Balanced cfg s.gov c gov stage) :
    State.Books cfg ⟨gov, s.calls.set i { c with stage }⟩ := by
  intro sem
  have hsum := hs sem
  have hbal := hb sem
  -- only call `i` moves, and its share of the books is balanced
  have hheld := Pool.total_set (w := fun c => c.held.count sem) hc { c with stage }
  have hlost := Pool.total_set (w := fun c => c.leaked.count sem) hc { c with stage }
  simp only [State.held, State.lost, List.count_append] at *
  omega

/-- **Step lemma**: every step keeps the books, and it keeps the absence of losses exactly if it does
    not cancel a call that holds a slot. -/
theorem books_step {a : Action} (hs : s.Books cfg) (h : (system cfg).step s a = some t) :
    t.Books cfg ∧ (t.NoneLost ↔ s.NoneLost ∧ CancelsEmptyHanded s a) := by
  cases a with
  | call req =>
      obtain rfl := Option.some.inj h
      refine ⟨?_, ?_⟩
      · intro sem
        have := hs sem
        simpa [State.held, State.lost, Call.held, Call.leaked] using this
      · simp only [State.NoneLost, CancelsEmptyHanded, reduceCtorEq, false_implies, implies_true,
          and_true, List.mem_append, List.mem_singleton, or_imp, forall_and, forall_eq]
        exact ⟨And.left, fun h => ⟨h, rfl⟩⟩
  | proceed i =>
      obtain ⟨c, gov, stage, hc, hf, rfl⟩ := State.move_eq_some h
      obtain ⟨hold, hnew⟩ := leaked_acquire hf
      refine ⟨hs.set hc (acquire_balanced hf), ?_⟩
      rw [State.NoneLost, Pool.forall_set_iff hc hold]
      simp [State.NoneLost, CancelsEmptyHanded, hnew]
  | interrupt i e =>
      obtain ⟨c, gov, stage, hc, hf, rfl⟩ :=
        State.move_eq_some (f := fun g c => interrupt g c e) h
      have hmade : ∀ sem ∈ c.held, (s.gov.value sem).isSome :=
        fun _ hsem => hs.made (List.mem_of_getElem? hc) hsem
      obtain ⟨hold, hnew⟩ := leaked_interrupt hf
      refine ⟨hs.set hc (interrupt_balanced hmade hf), ?_⟩
      rw [State.NoneLost, Pool.forall_set_iff hc hold, hnew]
      cases e with
      | exception => simp [State.NoneLost, CancelsEmptyHanded]
      | cancelled =>
          have hone : CancelsEmptyHanded s (.interrupt i .cancelled) ↔ c.held = [] := by
            refine ⟨fun hall => hall i c rfl hc, fun hheld j c' hij hc' => ?_⟩
            cases hij
            exact Option.some.inj (hc.symm.trans hc') ▸ hheld
          rw [hone, if_pos rfl, State.NoneLost]
  | release i =>
      obtain ⟨c, gov, stage, hc, hf, rfl⟩ := State.move_eq_some h
      have hmade : ∀ sem ∈ c.held, (s.gov.value sem).isSome :=
        fun _ hsem => hs.made (List.mem_of_getElem? hc) hsem
      obtain ⟨hold, hnew⟩ := leaked_release hf
      refine ⟨hs.set hc (release_balanced hmade hf), ?_⟩
      rw [State.NoneLost, Pool.forall_set_iff hc hold]
      simp [State.NoneLost, CancelsEmptyHanded, hnew]

/-- Running on takes slots that are counted, and loses none. -/
theorem books_runOn {i n : ℕ} (hs : s.Books cfg) :
    (s.runOn cfg i n).Books cfg ∧ ((s.runOn cfg i n).NoneLost ↔ s.NoneLost) := by
  induction n generalizing s with
  | zero => exact ⟨hs, Iff.rfl⟩
  | succ n ih =>
      unfold State.runOn
      split
      · split
        · split
          · next t ht =>
              obtain ⟨hbooks, hlost⟩ := books_step (a := .proceed i) hs ht
              have hproceed : CancelsEmptyHanded s (.proceed i) := fun _ _ h => by cases h
              obtain ⟨hrest, hsame⟩ := ih hbooks
              exact ⟨hrest, hsame.trans (hlost.trans (and_iff_left hproceed))⟩
          · exact ⟨hs, Iff.rfl⟩
        · exact ⟨hs, Iff.rfl⟩
      · exact ⟨hs, Iff.rfl⟩

/-- The same of a step up to the next suspension. -/
theorem books_stepOn {a : Action} (hs : s.Books cfg) (h : (unbroken cfg).step s a = some t) :
    t.Books cfg ∧ (t.NoneLost ↔ s.NoneLost ∧ CancelsEmptyHanded s a) := by
  cases a with
  | proceed i =>
      obtain ⟨u, hu, rfl⟩ := Option.map_eq_some_iff.mp h
      obtain ⟨hbooks, hlost⟩ := books_step (a := .proceed i) hs hu
      obtain ⟨hrest, hsame⟩ := books_runOn (i := i) (n := 3) hbooks
      exact ⟨hrest, hsame.trans hlost⟩
  | call req => exact books_step hs h
  | interrupt i e => exact books_step hs h
  | release i => exact books_step hs h

/-- The steps of either system keep the books. -/
theorem books_of_step {M : System State Action} (hM : M = system cfg ∨ M = unbroken cfg) {a : Action}
    (hs : s.Books cfg) (h : M.step s a = some t) :
    t.Books cfg ∧ (t.NoneLost ↔ s.NoneLost ∧ CancelsEmptyHanded s a) := by
  rcases hM with rfl | rfl
  · exact books_step hs h
  · exact books_stepOn hs h

/-- Both begin with a new governor. -/
theorem init_eq {M : System State Action} (hM : M = system cfg ∨ M = unbroken cfg) (h : M.init s) :
    s = ⟨Governor.new cfg, []⟩ := by
  rcases hM with rfl | rfl <;> exact h

end

/-! ## Whole runs -/

/-- No call waits further on or is admitted. -/
def State.Idle (s : State) : Prop := ∀ c ∈ s.calls, c.held = []

/-- In an accounted state without calls under way every semaphore is back at its cap. -/
theorem State.Accounted.full {cfg : ScaleConfig} {s : State} (h : s.Accounted cfg) (hidle : s.Idle)
    {sem : Sem} {v : ℕ} (hv : s.gov.value sem = some v) : v = cfg.cap sem := by
  have hheld : s.held sem = 0 := Pool.total_eq_zero_iff.mpr fun c hc => by simp [hidle c hc]
  have hsem := h sem
  rw [Governor.free, hv, Option.getD_some, hheld, Nat.add_zero] at hsem
  exact hsem

/-- **The governor accounts for every slot exactly in the runs without a cancellation of a call that
    holds one**, whether calls suspend at every await or only where they have to. After any run of calls,
    interruptions and releases, in any order, the free slots of every semaphore plus the slots held by calls
    under way are its cap, if and only if no call of the run was cancelled past its wait for the global slot.
    In such runs every semaphore is back at its cap when no call is under way. -/
theorem accounted_iff_cancelsEmptyHanded {cfg : ScaleConfig} {M : System State Action}
    (hM : M = system cfg ∨ M = unbroken cfg) {s₀ s : State} (h₀ : M.init s₀) {acts : List Action}
    (h : M.exec s₀ acts = some s) :
    (s.Accounted cfg ↔ M.Meets CancelsEmptyHanded s₀ acts) ∧
      (M.Meets CancelsEmptyHanded s₀ acts → s.Idle →
        ∀ sem v, s.gov.value sem = some v → v = cfg.cap sem) := by
  obtain rfl := init_eq hM h₀
  have hfirst : State.Books cfg ⟨Governor.new cfg, []⟩ := books_init rfl
  have hbooks : s.Books cfg :=
    (System.run_of_exec h).invariant (fun _ _ _ hI _ hst => (books_of_step hM hI hst).1) hfirst
  have hnone : State.NoneLost ⟨Governor.new cfg, []⟩ := fun _ hc => absurd hc List.not_mem_nil
  have hiff : s.Accounted cfg ↔ M.Meets CancelsEmptyHanded ⟨Governor.new cfg, []⟩ acts := by
    rw [accounted_iff hbooks, System.exec_iff (fun _ _ _ hI hst => books_of_step hM hI hst) hfirst h]
    exact and_iff_right hnone
  exact ⟨hiff, fun hm hidle _ _ hv => (hiff.mpr hm).full hidle hv⟩

/-! ## Examples of runs -/

/-- The default caps. -/
def defaultConfig : ScaleConfig where
  maxGlobalConcurrent := 32
  maxPerFamily := 8
  maxPerDistrict := 16
  maxPerJob := 4
  global_pos := by decide
  family_pos := by decide
  district_pos := by decide
  job_pos := by decide

def buildRequest : Request := ⟨"f", "build", some "j"⟩

/-- The default caps, but for one batch at a time in a family. -/
def oneAtATime : ScaleConfig := { defaultConfig with maxPerFamily := 1, family_pos := Nat.one_pos }

/-- One call is admitted. A second one of its family takes the global slot and has to wait for the family, where it is
    cancelled; then the first one ends. -/
def cancelledAtFamily : List Action :=
  [.call buildRequest, .proceed 0, .proceed 0, .proceed 0, .proceed 0,
    .call buildRequest, .proceed 1, .proceed 1, .proceed 1, .proceed 1, .interrupt 1 .cancelled, .release 0]

/-- Nothing is under way any more, yet the global semaphore is one short of its cap; and every call suspended only
    where it had to. -/
theorem acquire_cancelled_loses_slot :
    ∃ s, (unbroken oneAtATime).Reachable s ∧ s.Idle ∧ s.gov.value .global = some 31 ∧
      ¬ s.Accounted oneAtATime := by
  have hex : (((unbroken oneAtATime).exec ⟨Governor.new oneAtATime, []⟩ cancelledAtFamily).any
      fun s => s.calls.all (fun c => c.held = []) && s.gov.value .global = some 31) = true := by
    decide +kernel
  obtain ⟨s, hrun, hp⟩ := System.exists_of_exec hex
  simp only [Bool.and_eq_true, decide_eq_true_eq, List.all_eq_true] at hp
  obtain ⟨hidle, hval⟩ := hp
  refine ⟨s, System.reachable_of_exec rfl hrun, hidle, hval, fun hacc => ?_⟩
  exact absurd (hacc.full hidle hval) (by decide)

/-- The accounting at a run in which one call is admitted and released, and at the run with the cancellation. -/
theorem accounted_admitted_released :
    (∃ s, (system defaultConfig).exec ⟨Governor.new defaultConfig, []⟩
        ([.call buildRequest] ++ List.replicate 7 (.proceed 0) ++ [.release 0]) = some s ∧
      (s.Accounted defaultConfig ↔ (system defaultConfig).Meets CancelsEmptyHanded
        ⟨Governor.new defaultConfig, []⟩
        ([.call buildRequest] ++ List.replicate 7 (.proceed 0) ++ [.release 0]))) ∧
      ∃ s, (unbroken oneAtATime).exec ⟨Governor.new oneAtATime, []⟩ cancelledAtFamily = some s ∧
        ¬ (unbroken oneAtATime).Meets CancelsEmptyHanded ⟨Governor.new oneAtATime, []⟩ cancelledAtFamily := by
  constructor
  · have hex : ((system defaultConfig).exec ⟨Governor.new defaultConfig, []⟩
        ([.call buildRequest] ++ List.replicate 7 (.proceed 0) ++ [.release 0])).isSome = true := by
      decide +kernel
    obtain ⟨s, hrun⟩ := Option.isSome_iff_exists.mp hex
    exact ⟨s, hrun, (accounted_iff_cancelsEmptyHanded (.inl rfl) rfl hrun).1⟩
  · have hex : (((unbroken oneAtATime).exec ⟨Governor.new oneAtATime, []⟩ cancelledAtFamily).any
        fun s => s.calls.all (fun c => c.held = []) && s.gov.value .global = some 31) = true := by
      decide +kernel
    obtain ⟨s, hrun, hp⟩ := System.exists_of_exec hex
    simp only [Bool.and_eq_true, decide_eq_true_eq, List.all_eq_true] at hp
    obtain ⟨-, hfull⟩ := accounted_iff_cancelsEmptyHanded (.inr rfl) rfl hrun
    exact ⟨s, hrun, fun hmeets => absurd (hfull hmeets hp.1 _ _ hp.2) (by decide)⟩

end Persola.City.Scale
