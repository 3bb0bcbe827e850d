import Persola.City.LockOrder

/-!
# `City.HeadOfLine` — parked calls use up global slots

The global slot is taken first, so a call that waits for its family, district or job holds one. In `unbroken` a call
that gets a slot runs on to the next semaphore that has none. When calls wait for the global semaphore, the admitted
calls and the parked ones together make up its cap (`admitted_add_parked`).
-/

namespace Persola.City.Scale

open Runs

/-! ## Running on -/

section
variable {cfg : ScaleConfig} {s t : State}

theorem runOn_run {i n : ℕ} : ∀ s, (system cfg).Run NoCancel s (s.runOn cfg i n) := by
  induction n with
  | zero => exact fun s => .refl s
  | succ n ih =>
      intro s
      unfold State.runOn
      split
      · split
        · split
          · next u hu => exact .head (l := .proceed i) (noCancel_proceed s i) hu (ih u)
          · exact .refl s
        · exact .refl s
      · exact .refl s

/-- Running on is nothing but steps in a row. -/
theorem run_of_stepOn {a : Action} (hC : NoCancel s a) (h : (unbroken cfg).step s a = some t) :
    (system cfg).Run NoCancel s t := by
  cases a with
  | proceed i =>
      obtain ⟨u, hu, rfl⟩ := Option.map_eq_some_iff.mp h
      exact .head hC hu (runOn_run u)
  | call req => exact .head hC h (.refl t)
  | interrupt i e => exact .head hC h (.refl t)
  | release i => exact .head hC h (.refl t)

theorem orderly_of_unbroken (h : (unbroken cfg).Reach NoCancel s) : s.Orderly cfg := by
  refine h.invariant (fun _ (h₀ : (unbroken cfg).init _) => orderly_init h₀)
    fun _ _ _ hI hC hst => ?_
  exact (run_of_stepOn hC hst).invariant (fun _ _ _ hI hC hst => orderly_step hI hC hst) hI

/-! ## Where the global slots are -/

/-- Some call waits for the global semaphore, which has no free slot. -/
def State.WaitsGlobal (s : State) : Prop :=
  (∃ c ∈ s.calls, c.stage = .atGlobal) ∧ s.gov.value .global = some 0

/-- The calls that hold a global slot and wait for another one. -/
def State.parked (s : State) : ℕ := s.calls.countP fun c => c.stage.parked

/-- A call holds the global slot while it is admitted or parked. -/
theorem Call.count_global (c : Call) :
    c.held.count .global = (if c.stage = .admitted && true then 1 else 0) +
      if c.stage.parked then 1 else 0 := by
  obtain ⟨req, st⟩ := c
  cases st with
  | admitted => cases hj : req.jobKey <;> simp [Call.held, Stage.parked, hj]
  | atFamilySem | atDistrictSem | atJobSem | atGlobal | atFamily | atDistrict | atJob | released
    | gone leaked => simp [Call.held, Stage.parked]

/-- **When the global semaphore has no free slot, admitted and parked calls hold them all.** -/
theorem State.Orderly.admitted_add_parked (hs : s.Orderly cfg) (hw : s.WaitsGlobal) :
    s.admitted (fun _ => true) + s.parked = cfg.maxGlobalConcurrent := by
  have hbooks := hs.books .global
  rw [Governor.free, hw.2, Option.getD_some, Nat.zero_add] at hbooks
  have hlost : s.lost .global = 0 :=
    Pool.total_eq_zero_iff.mpr fun c hc => by simp [hs.noneLost c hc]
  have hheld : s.held .global = s.admitted (fun _ => true) + s.parked := by
    rw [State.held, State.admitted, State.parked, ← Pool.total_indicator, ← Pool.total_indicator,
      ← Pool.total_add]
    exact Pool.total_congr fun c _ => c.count_global
  show _ = cfg.cap .global
  omega

/-! ## Calls that find all their slots free -/

/-- The semaphores a call still needs once it holds the global slot, when it is not admitted yet. -/
def Call.needs (c : Call) : List Sem :=
  let dist := Sem.district (shardForDistrict c.req.district)
  let job := (c.req.jobKey.map Sem.job).toList
  match c.stage with
  | .atFamily => [.family c.req.family, dist] ++ job
  | .atDistrict => [dist] ++ job
  | .atJob => job
  | _ => []

/-- No call is cancelled, and a call takes its global slot only when its family, district and job have a
    free slot. -/
def FindsSlots (cfg : ScaleConfig) (s : State) (a : Action) : Prop :=
  NoCancel s a ∧ ∀ i c, a = .proceed i → s.calls[i]? = some c → c.stage = .atGlobal →
    ∀ sem ∈ ({ c with stage := .atFamily } : Call).needs, 1 ≤ s.gov.free cfg sem

instance (s : State) (a : Action) : Decidable (FindsSlots cfg s a) :=
  decidable_of_iff (NoCancel s a ∧ ∀ i ∈ List.range s.calls.length, a = .proceed i →
      ∀ c ∈ s.calls[i]?, c.stage = .atGlobal →
        ∀ sem ∈ ({ c with stage := .atFamily } : Call).needs, 1 ≤ s.gov.free cfg sem) <| by
    refine and_congr_right fun _ => ⟨fun h i c ha hc => ?_, fun h i _ ha c hc => h i c ha hc⟩
    have hi : i < s.calls.length := (List.getElem?_eq_some_iff.mp hc).1
    exact h i (List.mem_range.mpr hi) ha c hc

theorem Call.needs_nodup (c : Call) : c.needs.Nodup := by
  obtain ⟨req, st⟩ := c
  cases st with
  | atFamily | atDistrict | atJob => cases hj : req.jobKey <;> simp [Call.needs, hj]
  | atFamilySem | atDistrictSem | atJobSem | atGlobal | admitted | released | gone leaked => simp [needs]

/-- A parked call waits for the first semaphore it needs. -/
theorem Call.needs_cons {c : Call} (hp : c.stage.parked) (hjob : c.stage = .atJob → c.req.jobKey.isSome) :
    ∃ sem rest, c.needs = sem :: rest ∧ c.next = some sem := by
  obtain ⟨req, st⟩ := c
  cases st with
  | atFamily | atDistrict => exact ⟨_, _, rfl, rfl⟩
  | atJob =>
      obtain ⟨j, hj⟩ := Option.isSome_iff_exists.mp (hjob rfl)
      simp only at hj
      exact ⟨.job j, [], by simp [Call.needs, hj], by simp [Call.next, hj]⟩
  | atFamilySem | atDistrictSem | atJobSem | atGlobal | admitted | released | gone leaked => cases hp

/-- A parked call that goes on needs one semaphore less, and no other loses a slot. -/
theorem acquire_needs {g g' : Governor} {c : Call} {stage : Stage} (hp : c.stage.parked)
    (h : acquire cfg g c = some (g', stage)) {sem : Sem} {rest : List Sem} (hneeds : c.needs = sem :: rest) :
    ({ c with stage } : Call).needs = rest ∧ ∀ x, x ≠ sem → g'.free cfg x = g.free cfg x := by
  obtain ⟨req, st⟩ := c
  have hother : ∀ {g₁ : Governor} {a : Sem}, g.take a = some g₁ → a = sem →
      ∀ x, x ≠ sem → g₁.free cfg x = g.free cfg x := by
    intro g₁ a ht ha x hx
    have hfree := Governor.free_take cfg x ht
    have hcount : [a].count x = 0 := by
      rw [ha]
      exact List.count_eq_zero.mpr fun hmem => hx (List.mem_singleton.mp hmem)
    omega
  cases st with
  | atFamily =>
      obtain ⟨g₁, ht, heq⟩ := Option.map_eq_some_iff.mp h
      cases heq
      simp only [Call.needs, List.cons_append, List.nil_append, List.cons.injEq] at hneeds
      obtain ⟨hsem, rfl⟩ := hneeds
      exact ⟨rfl, hother ht hsem⟩
  | atDistrict =>
      obtain ⟨g₁, ht, heq⟩ := Option.map_eq_some_iff.mp h
      simp only [Call.needs, List.cons_append, List.nil_append, List.cons.injEq] at hneeds
      obtain ⟨hsem, rfl⟩ := hneeds
      have hfree := hother ht hsem
      cases hj : req.jobKey with
      | none =>
          simp only [hj] at heq
          cases heq
          exact ⟨rfl, fun x hx => hfree x hx⟩
      | some j =>
          simp only [hj] at heq
          cases heq
          exact ⟨by simp [Call.needs, hj], fun x hx => hfree x hx⟩
  | atJob =>
      simp only [acquire] at h
      split at h
      · next j hj =>
          obtain ⟨g₁, ht, heq⟩ := Option.map_eq_some_iff.mp h
          cases heq
          simp only [Call.needs, hj, Option.map_some, Option.toList_some, List.cons.injEq] at hneeds
          obtain ⟨hsem, rfl⟩ := hneeds
          have hfree := hother ht hsem
          exact ⟨rfl, fun x hx => hfree x hx⟩
      · cases h
  | atFamilySem | atDistrictSem | atJobSem | atGlobal | admitted | released | gone leaked => cases hp

/-- **Running on to the end**: a call whose semaphores all have a free slot is parked no more. -/
theorem runOn_admits {i n : ℕ} : ∀ {s : State} {c : Call}, s.calls[i]? = some c → s.Orderly cfg →
    c.needs.length ≤ n → (∀ sem ∈ c.needs, 1 ≤ s.gov.free cfg sem) →
      ∃ gov stage, s.runOn cfg i n = ⟨gov, s.calls.set i { c with stage }⟩ ∧ stage.parked = false := by
  induction n with
  | zero =>
      intro s c hc hs hlen _
      refine ⟨s.gov, c.stage, ?_, ?_⟩
      · show s = _
        rw [Pool.set_self hc]
      · by_contra hp
        rw [Bool.not_eq_false] at hp
        obtain ⟨sem, rest, hneeds, -⟩ := Call.needs_cons hp (hs.ready c (List.mem_of_getElem? hc)).job
        simp [hneeds] at hlen
  | succ n ih =>
      intro s c hc hs hlen hfree
      cases hp : c.stage.parked with
      | false =>
          refine ⟨s.gov, c.stage, ?_, hp⟩
          simp only [State.runOn, hc, hp]
          rw [Pool.set_self hc]
          rfl
      | true =>
          have hready := hs.ready c (List.mem_of_getElem? hc)
          obtain ⟨sem, rest, hneeds, hnext⟩ := Call.needs_cons hp hready.job
          obtain ⟨⟨gov, stage⟩, hf⟩ := Option.isSome_iff_exists.mp
            (acquire_isSome cfg hready hs.global hnext (hfree sem (by simp [hneeds])))
          obtain ⟨hrest, hother⟩ := acquire_needs hp hf hneeds
          have hst : step cfg s (.proceed i) = some ⟨gov, s.calls.set i { c with stage }⟩ := by
            simp [step, State.move, hc, hf]
          have hu := orderly_step hs (noCancel_proceed s i) hst
          have hi : i < s.calls.length := (List.getElem?_eq_some_iff.mp hc).1
          -- the semaphores still needed are other ones, and have as many free slots as before
          obtain ⟨gov', stage', hrun, hend⟩ := ih (c := { c with stage })
            (s := ⟨gov, s.calls.set i { c with stage }⟩) (by simp [hi]) hu
            (by rw [hrest]; simp only [hneeds, List.length_cons] at hlen; omega) (by
              intro x hx
              rw [hrest] at hx
              have hne : x ≠ sem := by
                rintro rfl
                have hnodup := c.needs_nodup
                rw [hneeds, List.nodup_cons] at hnodup
                exact hnodup.1 hx
              show 1 ≤ gov.free cfg x
              rw [hother x hne]
              exact hfree x (by simp [hneeds, hx]))
          refine ⟨gov', stage', ?_, hend⟩
          simp only [State.runOn, hc, hp, if_true, hst]
          rw [hrun, List.set_set]

/-- A call that was not parked needs something only right after it took its global slot. -/
theorem acquire_enters {g g' : Governor} {c : Call} {stage : Stage} (hp : c.stage.parked = false)
    (h : acquire cfg g c = some (g', stage)) :
    ({ c with stage } : Call).needs = [] ∨
      c.stage = .atGlobal ∧ stage = .atFamily ∧ ∀ x, x ≠ .global → g'.free cfg x = g.free cfg x := by
  obtain ⟨req, st⟩ := c
  cases st with
  | atFamilySem | atDistrictSem => cases h; exact .inl rfl
  | atJobSem => simp only [acquire] at h; split at h <;> cases h <;> exact .inl rfl
  | atGlobal =>
      obtain ⟨g₁, ht, heq⟩ := Option.map_eq_some_iff.mp h
      cases heq
      refine .inr ⟨rfl, rfl, fun x hx => ?_⟩
      have hfree := Governor.free_take cfg x ht
      rwa [List.count_singleton, if_neg (by simpa using Ne.symm hx), Nat.add_zero] at hfree
  | atFamily | atDistrict | atJob => cases hp
  | admitted | released | gone leaked => cases h

/-- No call is parked. -/
def State.NoneParked (s : State) : Prop := ∀ c ∈ s.calls, c.stage.parked = false

/-- **Step lemma**: as long as calls find their slots free, no call is parked. -/
theorem noneParked_step {a : Action} (hs : s.Orderly cfg) (hnone : s.NoneParked)
    (hC : FindsSlots cfg s a) (h : (unbroken cfg).step s a = some t) : t.NoneParked := by
  cases a with
  | call req =>
      obtain rfl := Option.some.inj h
      intro c hc
      rcases List.mem_append.mp hc with hc | hc
      · exact hnone c hc
      · obtain rfl := List.mem_singleton.mp hc
        rfl
  | interrupt i e =>
      obtain ⟨c, gov, stage, hc, hf, rfl⟩ := State.move_eq_some (f := fun g c => interrupt g c e) h
      refine Pool.forall_set hnone ?_
      obtain ⟨leaked, hgone⟩ := stage_of_interrupt hf
      show stage.parked = false
      rw [hgone]
      rfl
  | release i =>
      obtain ⟨c, gov, stage, hc, hf, rfl⟩ := State.move_eq_some h
      refine Pool.forall_set hnone ?_
      show stage.parked = false
      rw [(stage_of_release hf).2]
      rfl
  | proceed i =>
      obtain ⟨u, hu, rfl⟩ := Option.map_eq_some_iff.mp h
      have horder : u.Orderly cfg := orderly_step hs hC.1 hu
      obtain ⟨c, gov, stage, hc, hf, rfl⟩ := State.move_eq_some hu
      have hi : i < s.calls.length := (List.getElem?_eq_some_iff.mp hc).1
      have hp : c.stage.parked = false := hnone c (List.mem_of_getElem? hc)
      have hneeds : ∀ sem ∈ ({ c with stage } : Call).needs, 1 ≤ gov.free cfg sem := by
        rcases acquire_enters hp hf with hnil | ⟨hst, rfl, hfree⟩
        · simp [hnil]
        · intro sem hsem
          have hne : sem ≠ .global := by
            rintro rfl
            cases hj : c.req.jobKey <;> simp [Call.needs, hj] at hsem
          rw [hfree sem hne]
          exact hC.2 i c rfl hc hst sem hsem
      have hlen : ({ c with stage } : Call).needs.length ≤ 3 := by
        cases hj : c.req.jobKey <;> cases stage <;> simp [Call.needs, hj]
      obtain ⟨gov', stage', hrun, hend⟩ := runOn_admits (i := i) (c := { c with stage })
        (s := ⟨gov, s.calls.set i { c with stage }⟩) (by simp [hi]) horder hlen hneeds
      rw [hrun, List.set_set]
      exact Pool.forall_set hnone hend

end

/-- **Waiting calls and the use of the global cap.** In every state reached by any calls, releases and raised
    exceptions without a cancellation, when some call waits for the global semaphore: admitted calls and
    parked ones, which hold a global slot while they wait for their family, district or job, make up the
    cap together, so the cap is used by admitted calls exactly if no call is parked. And in every run in
    which a call takes the global slot only when its family, district and job have a free slot, it is, in
    every state. -/
theorem admitted_eq_cap_iff {cfg : ScaleConfig} {s : State} (h : (unbroken cfg).Reach NoCancel s)
    (hw : s.WaitsGlobal) :
    s.admitted (fun _ => true) + s.parked = cfg.maxGlobalConcurrent ∧
      (s.admitted (fun _ => true) = cfg.maxGlobalConcurrent ↔ s.NoneParked) ∧
      ((unbroken cfg).Reach (FindsSlots cfg) s →
        s.admitted (fun _ => true) = cfg.maxGlobalConcurrent) := by
  have hsum := (orderly_of_unbroken h).admitted_add_parked hw
  have hnone : s.parked = 0 ↔ s.NoneParked := by
    simp [State.parked, State.NoneParked, List.countP_eq_zero]
  have hiff : s.admitted (fun _ => true) = cfg.maxGlobalConcurrent ↔ s.NoneParked := by
    rw [← hnone]
    omega
  refine ⟨hsum, hiff, fun hfinds => hiff.mpr ?_⟩
  have hinv : s.Orderly cfg ∧ s.NoneParked := by
    refine hfinds.invariant (I := fun s => s.Orderly cfg ∧ s.NoneParked)
      (fun s₀ (h₀ : (unbroken cfg).init s₀) => ?_) fun _ _ _ hI hC hst => ?_
    · refine ⟨orderly_init h₀, ?_⟩
      obtain rfl := h₀
      exact fun _ hc => absurd hc List.not_mem_nil
    · exact ⟨(run_of_stepOn hC.1 hst).invariant (fun _ _ _ hI hC hst => orderly_step hI hC hst) hI.1,
        noneParked_step hI.1 hI.2 hC hst⟩
  exact hinv.2

/-! ## Examples of runs -/

/-- Two batches at a time, one of them for each family. -/
def twoGlobal : ScaleConfig where
  maxGlobalConcurrent := 2
  maxPerFamily := 1
  maxPerDistrict := 2
  maxPerJob := 1
  global_pos := by decide
  family_pos := by decide
  district_pos := by decide
  job_pos := by decide

/-- A call goes through all its lookups and on to the global semaphore or further. -/
def arrive (i : ℕ) (family : String) : List Action :=
  [.call ⟨family, "build", none⟩] ++ List.replicate 4 (.proceed i)

/-- Two calls of one family, then one of another, which waits for the global semaphore. -/
def busyFamily : List Action := arrive 0 "f" ++ arrive 1 "f" ++ (arrive 2 "g").dropLast

/-- One batch runs, the other global slot is held by a call that waits for its own family. -/
theorem busy_family_blocks_other :
    ¬ ∀ (cfg : ScaleConfig) (s : State), (unbroken cfg).Reach NoCancel s → s.WaitsGlobal →
      s.admitted (fun _ => true) = cfg.maxGlobalConcurrent := by
  intro hall
  have hex : (((unbroken twoGlobal).exec ⟨Governor.new twoGlobal, []⟩ busyFamily).any fun s =>
      s.calls.any (fun c => c.stage = .atGlobal) && s.gov.value .global = some 0 &&
        s.admitted (fun _ => true) = 1) = true := by decide +kernel
  obtain ⟨s, hrun, hp⟩ := System.exists_of_exec hex
  simp only [Bool.and_eq_true, decide_eq_true_eq, List.any_eq_true] at hp
  obtain ⟨⟨⟨c, hc, hst⟩, hval⟩, hone⟩ := hp
  have hmeets : (unbroken twoGlobal).Meets NoCancel ⟨Governor.new twoGlobal, []⟩ busyFamily := by
    decide +kernel
  have htwo := hall twoGlobal s ⟨_, rfl, System.run_of_meets hrun hmeets⟩ ⟨⟨c, hc, hst⟩, hval⟩
  rw [hone] at htwo
  exact absurd htwo (by decide)

/-- Two calls of two families that find their slots free, and a third call that waits behind them. -/
def spreadFamilies : List Action := arrive 0 "f" ++ arrive 1 "g" ++ (arrive 2 "f").dropLast

/-- The whole cap is in use in that run. -/
theorem spread_families_use_cap :
    ∃ s, (unbroken twoGlobal).exec ⟨Governor.new twoGlobal, []⟩ spreadFamilies = some s ∧
      s.WaitsGlobal ∧ s.admitted (fun _ => true) = twoGlobal.maxGlobalConcurrent := by
  have hex : (((unbroken twoGlobal).exec ⟨Governor.new twoGlobal, []⟩ spreadFamilies).any fun s =>
      s.calls.any (fun c => c.stage = .atGlobal) && s.gov.value .global = some 0) = true := by
    decide +kernel
  obtain ⟨s, hrun, hp⟩ := System.exists_of_exec hex
  simp only [Bool.and_eq_true, decide_eq_true_eq, List.any_eq_true] at hp
  have hfinds : (unbroken twoGlobal).Meets (FindsSlots twoGlobal) ⟨Governor.new twoGlobal, []⟩
      spreadFamilies := by
    decide +kernel
  have hreach : (unbroken twoGlobal).Reach (FindsSlots twoGlobal) s :=
    ⟨_, rfl, System.run_of_meets hrun hfinds⟩
  have hcancel : (unbroken twoGlobal).Reach NoCancel s :=
    ⟨_, rfl, (System.run_of_meets hrun hfinds).mono fun _ _ hC => hC.1⟩
  exact ⟨s, hrun, hp, (admitted_eq_cap_iff hcancel hp).2.2 hreach⟩

end Persola.City.Scale
