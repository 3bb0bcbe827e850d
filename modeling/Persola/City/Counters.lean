import Persola.City.Accounting

/-!
# `City.Counters` — the activity counters are the admitted calls

`acquire` and `release` keep four families of counters next to the semaphores: `active_global`,
`active_by_family`, `active_by_district` and `active_by_job`. Each counts the slots of one semaphore that
admitted calls hold (`State.Counted`), so the cap of the semaphore bounds it, and a release, which finds its
own call counted, never reaches a clamp.
-/

namespace Persola.City.Scale

open Runs

/-! ## One counter for each semaphore -/

/-- The counter kept next to a semaphore; a key that is not in its table counts zero. -/
def Governor.active (g : Governor) : Sem → ℕ
  | .global => g.activeGlobal
  | .family f => (g.activeByFamily f).getD 0
  | .district d => (g.activeByDistrict d).getD 0
  | .job j => (g.activeByJob j).getD 0

section
variable {cfg : ScaleConfig} {g g' : Governor} {a sem : Sem}

/-- Making a semaphore and taking a slot do not touch the counters. -/
@[simp] theorem Governor.active_ensure : (g.ensure cfg a).active = g.active := by
  unfold Governor.ensure
  split <;> rfl

theorem Governor.active_take (h : g.take a = some g') : g'.active = g.active := by
  unfold Governor.take at h
  split at h <;> cases h
  rfl

theorem getD_bump (d : String → Option ℕ) (k k' : String) :
    (Governor.bump d k k').getD 0 = (d k').getD 0 + if k = k' then 1 else 0 := by
  by_cases hk : k' = k
  · subst hk; simp [Governor.bump]
  · simp [Governor.bump, hk, Ne.symm hk]

theorem getD_drop (d : String → Option ℕ) (k k' : String) :
    (Governor.drop d k k').getD 0 = (d k').getD 0 - if k = k' then 1 else 0 := by
  by_cases hk : k' = k
  · subst hk
    cases hd : d k' <;> simp [Governor.drop, hd]
  · simp [Governor.drop, hk, Ne.symm hk]

end

/-! ## One call -/

/-- What the counters count: the slots of the call while it is admitted. -/
def Call.counted (c : Call) : List Sem := if c.stage = .admitted then c.held else []

theorem Call.count_counted_le (c : Call) (sem : Sem) : c.counted.count sem ≤ c.held.count sem := by
  unfold Call.counted
  split
  · exact le_rfl
  · exact Nat.zero_le _

section
variable {cfg : ScaleConfig} {g g' : Governor} {c : Call} {stage : Stage} {sem : Sem}

/-- The end of `acquire` counts the call under each of its keys. -/
theorem active_admitCall (g : Governor) (r : Request) (sem : Sem) :
    (admitCall g r).1.active sem = g.active sem + (⟨r, .admitted⟩ : Call).counted.count sem := by
  cases hj : r.jobKey with
  | none =>
      cases sem <;>
        simp [admitCall, Governor.active, Call.counted, Call.held, hj, getD_bump, List.count_cons]
  | some j =>
      cases sem <;>
        simp [admitCall, Governor.active, Call.counted, Call.held, hj, getD_bump, List.count_cons]

theorem acquire_active (h : acquire cfg g c = some (g', stage)) (sem : Sem) :
    c.counted = [] ∧ g'.active sem = g.active sem + ({ c with stage } : Call).counted.count sem := by
  obtain ⟨req, st⟩ := c
  cases st with
  | atFamilySem | atDistrictSem => cases h; exact ⟨rfl, by simp [Call.counted]⟩
  | atJobSem =>
      simp only [acquire] at h
      split at h <;> cases h <;> exact ⟨rfl, by simp [Call.counted]⟩
  | atGlobal | atFamily =>
      obtain ⟨g₁, ht, heq⟩ := Option.map_eq_some_iff.mp h
      cases heq
      exact ⟨rfl, by simp [Call.counted, Governor.active_take ht]⟩
  | atDistrict =>
      obtain ⟨g₁, ht, heq⟩ := Option.map_eq_some_iff.mp h
      refine ⟨rfl, ?_⟩
      cases hj : req.jobKey with
      | none =>
          simp only [hj] at heq
          cases heq
          rw [← Governor.active_take ht]
          exact active_admitCall g₁ req sem
      | some j =>
          simp only [hj] at heq
          cases heq
          simp [Call.counted, Governor.active_take ht]
  | atJob =>
      refine ⟨rfl, ?_⟩
      simp only [acquire] at h
      split at h
      · obtain ⟨g₁, ht, heq⟩ := Option.map_eq_some_iff.mp h
        cases heq
        rw [← Governor.active_take ht]
        exact active_admitCall g₁ req sem
      · cases h
  | admitted | released | gone leaked => cases h

/-- An interrupted call was not admitted, and the handlers do not touch the counters. -/
theorem interrupt_active {e : Interrupt} (h : interrupt g c e = some (g', stage)) :
    c.counted = [] ∧ ({ c with stage } : Call).counted = [] ∧ g'.active = g.active := by
  obtain ⟨req, st⟩ := c
  cases st with
  | atFamilySem | atDistrictSem | atJobSem | atGlobal => cases h; exact ⟨rfl, rfl, rfl⟩
  | atFamily | atDistrict | atJob => cases e <;> cases h <;> exact ⟨rfl, rfl, rfl⟩
  | admitted | released | gone leaked => cases h

/-- A release takes its call out of each of its counters, or leaves a counter at zero. -/
theorem release_active (h : release g c = some (g', stage)) (sem : Sem) :
    ({ c with stage } : Call).counted = [] ∧ g'.active sem = g.active sem - c.counted.count sem := by
  obtain ⟨req, st⟩ := c
  cases st with
  | admitted =>
      cases hj : req.jobKey with
      | none =>
          simp only [release, hj, Option.some.injEq, Prod.mk.injEq] at h
          obtain ⟨rfl, rfl⟩ := h
          refine ⟨rfl, ?_⟩
          cases sem <;>
            simp [Governor.active, Governor.give, Call.counted, Call.held, hj, getD_drop,
              List.count_cons]
      | some j =>
          simp only [release, hj, Option.some.injEq, Prod.mk.injEq] at h
          obtain ⟨rfl, rfl⟩ := h
          refine ⟨rfl, ?_⟩
          cases sem <;>
            simp [Governor.active, Governor.give, Call.counted, Call.held, hj, getD_drop,
              List.count_cons]
  | atFamilySem | atDistrictSem | atJobSem | atGlobal | atFamily | atDistrict | atJob | released
    | gone leaked => cases h

theorem stage_of_release (h : release g c = some (g', stage)) :
    c.stage = .admitted ∧ stage = .released := by
  obtain ⟨req, st⟩ := c
  cases st with
  | admitted => cases h; exact ⟨rfl, rfl⟩
  | atFamilySem | atDistrictSem | atJobSem | atGlobal | atFamily | atDistrict | atJob | released
    | gone leaked => cases h

/-- A call that goes on is not through, and not released then. -/
theorem stage_of_acquire (h : acquire cfg g c = some (g', stage)) :
    c.stage ≠ .admitted ∧ c.stage ≠ .released ∧ stage ≠ .released := by
  obtain ⟨req, st⟩ := c
  cases st with
  | atFamilySem | atDistrictSem => cases h; simp
  | atJobSem => simp only [acquire] at h; split at h <;> cases h <;> simp
  | atGlobal | atFamily =>
      obtain ⟨g₁, -, heq⟩ := Option.map_eq_some_iff.mp h
      cases heq
      simp
  | atDistrict =>
      obtain ⟨g₁, -, heq⟩ := Option.map_eq_some_iff.mp h
      cases hj : req.jobKey <;> simp only [hj] at heq <;> cases heq <;> simp
  | atJob =>
      simp only [acquire] at h
      split at h
      · obtain ⟨g₁, -, heq⟩ := Option.map_eq_some_iff.mp h
        cases heq
        simp
      · cases h
  | admitted | released | gone leaked => cases h

theorem stage_of_interrupt {e : Interrupt} (h : interrupt g c e = some (g', stage)) :
    ∃ leaked, stage = .gone leaked := by
  obtain ⟨req, st⟩ := c
  cases st with
  | atFamilySem | atDistrictSem | atJobSem | atGlobal => cases h; exact ⟨_, rfl⟩
  | atFamily | atDistrict | atJob => cases e <;> cases h <;> exact ⟨_, rfl⟩
  | admitted | released | gone leaked => cases h

end

/-! ## All calls -/

/-- The admitted calls whose request `p` picks. -/
def State.admitted (s : State) (p : Request → Bool) : ℕ :=
  s.calls.countP fun c => c.stage = .admitted && p c.req

/-- **Every counter counts**: it is the number of slots of its semaphore that admitted calls hold. -/
def State.Counted (s : State) : Prop :=
  ∀ sem, s.gov.active sem = Pool.total (fun c => c.counted.count sem) s.calls

section
variable {cfg : ScaleConfig} {s t : State}

theorem counted_init (h : (system cfg).init s) : s.Counted := by
  obtain rfl := h
  intro sem
  cases sem <;> rfl

/-- Moving one call keeps the counters right when the counters move with it. -/
theorem State.Counted.set (hs : s.Counted) {i : ℕ} {c : Call} (hc : s.calls[i]? = some c)
    {gov : Governor} {stage : Stage}
    (hmove : ∀ sem, gov.active sem + c.counted.count sem
      = s.gov.active sem + ({ c with stage } : Call).counted.count sem) :
    State.Counted ⟨gov, s.calls.set i { c with stage }⟩ := by
  intro sem
  have hsum := hs sem
  have hone := hmove sem
  have hset := Pool.total_set (w := fun c => c.counted.count sem) hc { c with stage }
  show gov.active sem = Pool.total (fun c => c.counted.count sem) (s.calls.set i { c with stage })
  omega

/-- An admitted call is counted under each of its slots. -/
theorem State.Counted.count_le (hs : s.Counted) {c : Call} (hc : c ∈ s.calls) (sem : Sem) :
    c.counted.count sem ≤ s.gov.active sem := by
  rw [hs sem]
  exact Pool.le_total (w := fun c => c.counted.count sem) hc

/-- **Step lemma**: calls, interruptions and releases keep every counter right. -/
theorem counted_step {a : Action} (hs : s.Counted) (h : (system cfg).step s a = some t) :
    t.Counted := by
  cases a with
  | call req =>
      obtain rfl := Option.some.inj h
      intro sem
      have := hs sem
      simpa [Call.counted] using this
  | proceed i =>
      obtain ⟨c, gov, stage, hc, hf, rfl⟩ := State.move_eq_some h
      refine hs.set hc fun sem => ?_
      obtain ⟨hold, hnew⟩ := acquire_active hf sem
      rw [hold, hnew, List.count_nil, Nat.add_zero]
  | interrupt i e =>
      obtain ⟨c, gov, stage, hc, hf, rfl⟩ :=
        State.move_eq_some (f := fun g c => interrupt g c e) h
      refine hs.set hc fun sem => ?_
      obtain ⟨hold, hnew, hgov⟩ := interrupt_active hf
      rw [hold, hnew, hgov]
  | release i =>
      obtain ⟨c, gov, stage, hc, hf, rfl⟩ := State.move_eq_some h
      refine hs.set hc fun sem => ?_
      obtain ⟨hnew, hgov⟩ := release_active hf sem
      -- the call is counted itself, so the subtraction is not cut off
      have hle := hs.count_le (List.mem_of_getElem? hc) sem
      rw [hnew, hgov, List.count_nil]
      omega

theorem counted_of_reachable (h : (system cfg).Reachable s) : s.Counted :=
  h.invariant (fun _ => counted_init) fun _ _ _ hI _ hst => counted_step hI hst

theorem books_of_reachable (h : (system cfg).Reachable s) : s.Books cfg :=
  h.invariant (fun _ => books_init) fun _ _ _ hI _ hst => (books_step hI hst).1

/-- A counter never exceeds the cap of its semaphore. -/
theorem active_le_cap (h : (system cfg).Reachable s) (sem : Sem) : s.gov.active sem ≤ cfg.cap sem := by
  have hcount := counted_of_reachable h sem
  have hbooks := books_of_reachable h sem
  have hheld : Pool.total (fun c => c.counted.count sem) s.calls ≤ s.held sem :=
    Pool.total_mono fun c _ => c.count_counted_le sem
  omega

/-- The counted slots of a semaphore are the admitted calls whose request has it among its slots. -/
theorem total_counted (sem : Sem) {p : Request → Bool}
    (hp : ∀ r, (⟨r, .admitted⟩ : Call).held.count sem = if p r then 1 else 0) :
    Pool.total (fun c => c.counted.count sem) s.calls = s.admitted p := by
  rw [State.admitted, ← Pool.total_indicator]
  refine Pool.total_congr fun c _ => ?_
  obtain ⟨r, st⟩ := c
  by_cases hst : st = .admitted
  · subst hst
    simpa [Call.counted] using hp r
  · simp [Call.counted, hst]

end

/-- **The counters are the admitted calls, at most the caps, and never clamped.** In every reachable state,
    after any interleaving of calls, releases and interruptions: `active_global` is the number of admitted
    calls, `active_by_family[f]` of those of family `f`, `active_by_district[d]` of those whose district
    maps to the shard `d`, and `active_by_job[j]` of those with the job id `j` (a key that is missing counts
    zero); each is at most its cap; and for a call that is released now every counter the release lowers has
    its key and is at least one. -/
theorem counters_exact {cfg : ScaleConfig} {s : State} (h : (system cfg).Reachable s) :
    (s.gov.activeGlobal = s.admitted (fun _ => true) ∧
      (∀ f, (s.gov.activeByFamily f).getD 0 = s.admitted fun r => r.family = f) ∧
      (∀ d, (s.gov.activeByDistrict d).getD 0 = s.admitted fun r => shardForDistrict r.district = d) ∧
      ∀ j, (s.gov.activeByJob j).getD 0 = s.admitted fun r => r.jobKey = some j) ∧
    (s.gov.activeGlobal ≤ cfg.maxGlobalConcurrent ∧
      (∀ f, (s.gov.activeByFamily f).getD 0 ≤ cfg.maxPerFamily) ∧
      (∀ d, (s.gov.activeByDistrict d).getD 0 ≤ cfg.maxPerDistrict) ∧
      ∀ j, (s.gov.activeByJob j).getD 0 ≤ cfg.maxPerJob) ∧
    ∀ i c t, s.calls[i]? = some c → (system cfg).step s (.release i) = some t →
      1 ≤ s.gov.activeGlobal ∧ (∃ n, s.gov.activeByFamily c.req.family = some (n + 1)) ∧
      (∃ n, s.gov.activeByDistrict (shardForDistrict c.req.district) = some (n + 1)) ∧
      ∀ j, c.req.jobKey = some j → ∃ n, s.gov.activeByJob j = some (n + 1) := by
  have hcount := counted_of_reachable h
  refine ⟨⟨?_, fun f => ?_, fun d => ?_, fun j => ?_⟩, ⟨active_le_cap h .global,
    fun f => active_le_cap h (.family f), fun d => active_le_cap h (.district d),
    fun j => active_le_cap h (.job j)⟩, ?_⟩
  · rw [← total_counted .global fun r => ?_]
    · exact hcount .global
    · cases hj : r.jobKey <;> simp [Call.held, hj]
  · rw [← total_counted (.family f) fun r => ?_]
    · exact hcount (.family f)
    · cases hj : r.jobKey <;> simp [Call.held, hj, List.count_cons]
  · rw [← total_counted (.district d) fun r => ?_]
    · exact hcount (.district d)
    · cases hj : r.jobKey <;> simp [Call.held, hj, List.count_cons]
  · rw [← total_counted (.job j) fun r => ?_]
    · exact hcount (.job j)
    · cases hj : r.jobKey <;> simp [Call.held, hj, List.count_cons]
  · intro i c t hc hst
    obtain ⟨c', gov, stage, hc', hf, -⟩ := State.move_eq_some hst
    obtain rfl : c = c' := Option.some.inj (hc.symm.trans hc')
    -- only an admitted call is released, and it is counted under each of its slots
    have hadm : c.stage = .admitted := (stage_of_release hf).1
    have hone : ∀ sem ∈ c.held, 1 ≤ s.gov.active sem := fun sem hsem => by
      have hle := hcount.count_le (List.mem_of_getElem? hc) sem
      rw [Call.counted, if_pos hadm] at hle
      exact (List.count_pos_iff.mpr hsem).trans_le hle
    have hkey : ∀ o : Option ℕ, 1 ≤ o.getD 0 → ∃ n, o = some (n + 1) := fun o ho => by
      cases o with
      | none => cases ho
      | some v =>
          have hv : v - 1 + 1 = v := Nat.sub_add_cancel ho
          exact ⟨v - 1, by rw [hv]⟩
    have hheld : c.held = [.global, .family c.req.family,
        .district (shardForDistrict c.req.district)] ++ (c.req.jobKey.map Sem.job).toList := by
      rw [Call.held, hadm]
    rw [hheld] at hone
    refine ⟨hone .global (by simp), hkey _ (hone (.family _) (by simp)),
      hkey _ (hone (.district _) (by simp)), fun j hj => hkey _ (hone (.job j) (by simp [hj]))⟩

/-- Two admitted calls: the first names no known district and an empty job id, the second spells its
    district in another case. -/
def twoAdmitted : List Action :=
  [.call ⟨"f", "harbour", some ""⟩, .call ⟨"f", " VIZ", some "j"⟩] ++
    List.replicate 6 (.proceed 0) ++ List.replicate 7 (.proceed 1)

/-- The counters at that run. -/
theorem counters_two_admitted :
    ∃ s, (system defaultConfig).exec ⟨Governor.new defaultConfig, []⟩ twoAdmitted = some s ∧
      s.admitted (fun _ => true) = 2 ∧ s.gov.activeGlobal = s.admitted (fun _ => true) ∧
      (s.gov.activeByDistrict "district:viz").getD 0
        = s.admitted fun r => shardForDistrict r.district = "district:viz" := by
  have hex : (((system defaultConfig).exec ⟨Governor.new defaultConfig, []⟩ twoAdmitted).any
      fun s => s.admitted (fun _ => true) = 2) = true := by decide +kernel
  obtain ⟨s, hrun, htwo⟩ := System.exists_of_exec hex
  have hcount := (counters_exact (System.reachable_of_exec rfl hrun)).1
  exact ⟨s, hrun, of_decide_eq_true htwo, hcount.1, hcount.2.2.1 _⟩

end Persola.City.Scale
