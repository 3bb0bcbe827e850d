import Persola.City.Counters

/-!
# `City.LockOrder` — waiting calls never block each other for good

Every call takes its semaphores in one order: global, family, district, job. So whatever calls wait, one of
those that wait for the latest semaphore waits for one that only admitted calls hold. Without an admitted
call that semaphore is free (`exists_proceeds`), and letting calls proceed and admitted ones release brings
every call to its end (`drains`).
-/

namespace Persola.City.Scale

open Runs

/-! ## What a call waits for -/

/-- Has the call yet to be admitted? -/
def Stage.pending : Stage → Bool
  | .admitted | .released | .gone _ => false
  | _ => true

/-- The next semaphore the call needs; before its wait for the global one it holds nothing. -/
def Call.next (c : Call) : Option Sem :=
  match c.stage with
  | .atFamilySem | .atDistrictSem | .atJobSem | .atGlobal => some .global
  | .atFamily => some (.family c.req.family)
  | .atDistrict => some (.district (shardForDistrict c.req.district))
  | .atJob => c.req.jobKey.map .job
  | _ => none

/-- The order in which semaphores are taken. -/
def Sem.rank : Sem → ℕ
  | .global => 0
  | .family _ => 1
  | .district _ => 2
  | .job _ => 3

/-- **The lock order**: a call that waits holds earlier semaphores only. -/
theorem Call.rank_lt {c : Call} {sem next : Sem} (hsem : sem ∈ c.held) (hnext : c.next = some next) :
    sem.rank < next.rank := by
  obtain ⟨req, st⟩ := c
  cases st with
  | atFamilySem | atDistrictSem | atJobSem | atGlobal => simp [Call.held] at hsem
  | atFamily =>
      cases hnext
      simp only [Call.held, List.mem_singleton] at hsem
      simp [hsem, Sem.rank]
  | atDistrict =>
      cases hnext
      simp only [Call.held, List.mem_cons, List.not_mem_nil, or_false] at hsem
      rcases hsem with rfl | rfl <;> simp [Sem.rank]
  | atJob =>
      obtain ⟨j, -, rfl⟩ := Option.map_eq_some_iff.mp hnext
      simp only [Call.held, List.mem_cons, List.not_mem_nil, or_false] at hsem
      rcases hsem with rfl | rfl | rfl <;> simp [Sem.rank]
  | admitted | released | gone leaked => cases hnext

/-- Only an admitted call holds slots without waiting for another. -/
theorem Call.admitted_of_held {c : Call} {sem : Sem} (hsem : sem ∈ c.held) (hnext : c.next = none)
    (hjob : c.stage = .atJob → c.req.jobKey.isSome) : c.stage = .admitted := by
  obtain ⟨req, st⟩ := c
  cases st with
  | admitted => rfl
  | atFamilySem | atDistrictSem | atJobSem | atGlobal | atFamily | atDistrict => cases hnext
  | atJob =>
      obtain ⟨j, hj⟩ := Option.isSome_iff_exists.mp (hjob rfl)
      simp only at hj
      simp [Call.next, hj] at hnext
  | released | gone leaked => simp [Call.held] at hsem

/-! ## The semaphores a call has looked up exist -/

/-- The semaphores a call that is not admitted yet has looked up. -/
def Call.looked (c : Call) : List Sem :=
  let fam := Sem.family c.req.family
  let dist := Sem.district (shardForDistrict c.req.district)
  match c.stage with
  | .atDistrictSem => [fam]
  | .atJobSem => [fam, dist]
  | .atGlobal | .atFamily | .atDistrict | .atJob => [fam, dist] ++ (c.req.jobKey.map Sem.job).toList
  | _ => []

/-- What a call knows: its semaphores exist, and it waits for a job semaphore only if it has a job. -/
structure Call.Ready (g : Governor) (c : Call) : Prop where
  looked : ∀ sem ∈ c.looked, (g.value sem).isSome
  job : c.stage = .atJob → c.req.jobKey.isSome

section
variable {cfg : ScaleConfig} {g g' : Governor} {c : Call} {stage : Stage} {a sem : Sem}

theorem Governor.isSome_ensure (h : (g.value sem).isSome) : ((g.ensure cfg a).value sem).isSome := by
  unfold Governor.ensure
  split
  · exact h
  · by_cases hs : sem = a
    · subst hs; simp
    · simpa [hs] using h

theorem Governor.isSome_ensure_self : ((g.ensure cfg a).value a).isSome := by
  unfold Governor.ensure
  split
  · next hv => simp [hv]
  · simp

theorem Governor.isSome_take (ht : g.take a = some g') (h : (g.value sem).isSome) :
    (g'.value sem).isSome := by
  unfold Governor.take at ht
  split at ht <;> cases ht
  by_cases hs : sem = a
  · subst hs; simp
  · simpa [hs] using h

/-- `acquire` forgets no semaphore, and the call keeps knowing its own. -/
theorem acquire_ready (h : acquire cfg g c = some (g', stage)) (hc : c.Ready g) :
    (∀ sem, (g.value sem).isSome → (g'.value sem).isSome) ∧ ({ c with stage } : Call).Ready g' := by
  obtain ⟨req, st⟩ := c
  have hlooked := hc.looked
  cases st with
  | atFamilySem =>
      cases h
      refine ⟨fun sem hsem => Governor.isSome_ensure hsem, fun sem hsem => ?_, by simp⟩
      obtain rfl := List.mem_singleton.mp hsem
      exact Governor.isSome_ensure_self
  | atDistrictSem =>
      cases h
      refine ⟨fun sem hsem => Governor.isSome_ensure hsem, fun sem hsem => ?_, by simp⟩
      rcases List.mem_cons.mp hsem with rfl | hsem
      · exact Governor.isSome_ensure (hlooked _ (List.mem_singleton_self _))
      · obtain rfl := List.mem_singleton.mp hsem
        exact Governor.isSome_ensure_self
  | atJobSem =>
      simp only [acquire] at h
      split at h
      · next j hj =>
          cases h
          refine ⟨fun sem hsem => Governor.isSome_ensure hsem, fun sem hsem => ?_, by simp⟩
          simp only [Call.looked, hj, Option.map_some, Option.toList_some, List.mem_append,
            List.mem_singleton] at hsem
          rcases hsem with hsem | rfl
          · exact Governor.isSome_ensure (hlooked sem hsem)
          · exact Governor.isSome_ensure_self
      · next hj =>
          cases h
          refine ⟨fun _ hsem => hsem, fun sem hsem => hlooked sem ?_, by simp⟩
          simpa [Call.looked, hj] using hsem
  | atGlobal | atFamily =>
      obtain ⟨g₁, ht, heq⟩ := Option.map_eq_some_iff.mp h
      cases heq
      refine ⟨fun sem hsem => Governor.isSome_take ht hsem, fun sem hsem => ?_, by simp⟩
      exact Governor.isSome_take ht (hlooked sem hsem)
  | atDistrict =>
      obtain ⟨g₁, ht, heq⟩ := Option.map_eq_some_iff.mp h
      cases hj : req.jobKey with
      | none =>
          simp only [hj] at heq
          cases heq
          have hmade : ∀ sem, (g.value sem).isSome → (g₁.value sem).isSome :=
            fun sem hsem => Governor.isSome_take ht hsem
          exact ⟨hmade, by simp [Call.looked], by simp⟩
      | some j =>
          simp only [hj] at heq
          cases heq
          refine ⟨fun sem hsem => Governor.isSome_take ht hsem, fun sem hsem => ?_,
            fun _ => by simp [hj]⟩
          exact Governor.isSome_take ht (hlooked sem hsem)
  | atJob =>
      simp only [acquire] at h
      split at h
      · obtain ⟨g₁, ht, heq⟩ := Option.map_eq_some_iff.mp h
        cases heq
        have hmade : ∀ sem, (g.value sem).isSome → (g₁.value sem).isSome :=
          fun sem hsem => Governor.isSome_take ht hsem
        exact ⟨hmade, by simp [Call.looked], by simp⟩
      · cases h
  | admitted | released | gone leaked => cases h

/-- The handlers and `release` only give slots back. -/
theorem interrupt_ready {e : Interrupt} (h : interrupt g c e = some (g', stage)) :
    (∀ sem, (g.value sem).isSome → (g'.value sem).isSome) ∧ ({ c with stage } : Call).Ready g' := by
  obtain ⟨req, st⟩ := c
  cases st with
  | atFamilySem | atDistrictSem | atJobSem | atGlobal =>
      cases h
      exact ⟨fun _ hsem => hsem, by simp [Call.looked], by simp⟩
  | atFamily | atDistrict | atJob =>
      cases e with
      | cancelled =>
          cases h
          exact ⟨fun _ hsem => hsem, by simp [Call.looked], by simp⟩
      | exception =>
          cases h
          exact ⟨fun sem hsem => by simpa using hsem, by simp [Call.looked], by simp⟩
  | admitted | released | gone leaked => cases h

theorem release_ready (h : release g c = some (g', stage)) :
    (∀ sem, (g.value sem).isSome → (g'.value sem).isSome) ∧ ({ c with stage } : Call).Ready g' := by
  obtain ⟨req, st⟩ := c
  cases st with
  | admitted =>
      cases hj : req.jobKey with
      | none =>
          simp only [release, hj, Option.some.injEq, Prod.mk.injEq] at h
          obtain ⟨rfl, rfl⟩ := h
          refine ⟨fun sem hsem => ?_, by simp [Call.looked], by simp⟩
          show ((((g.give (.district (shardForDistrict req.district))).give
            (.family req.family)).give .global).value sem).isSome
          simpa using hsem
      | some j =>
          simp only [release, hj, Option.some.injEq, Prod.mk.injEq] at h
          obtain ⟨rfl, rfl⟩ := h
          refine ⟨fun sem hsem => ?_, by simp [Call.looked], by simp⟩
          show (((((g.give (.job j)).give (.district (shardForDistrict req.district))).give
            (.family req.family)).give .global).value sem).isSome
          simpa using hsem
  | atFamilySem | atDistrictSem | atJobSem | atGlobal | atFamily | atDistrict | atJob | released
    | gone leaked => cases h

/-- A call whose next semaphore has a free slot goes on. -/
theorem acquire_isSome (cfg : ScaleConfig) (hc : c.Ready g) (hglobal : (g.value .global).isSome)
    (hnext : c.next = some sem) (hfree : 1 ≤ g.free cfg sem) : (acquire cfg g c).isSome := by
  obtain ⟨req, st⟩ := c
  have htake : ∀ sem, (g.value sem).isSome → 1 ≤ g.free cfg sem → (g.take sem).isSome := by
    intro sem hsem hpos
    obtain ⟨v, hv⟩ := Option.isSome_iff_exists.mp hsem
    rw [Governor.free, hv, Option.getD_some] at hpos
    obtain ⟨n, rfl⟩ : ∃ n, v = n + 1 := ⟨v - 1, by omega⟩
    simp [Governor.take, hv]
  have hlooked := hc.looked
  cases st with
  | atFamilySem | atDistrictSem => rfl
  | atJobSem =>
      simp only [acquire]
      split <;> rfl
  | atGlobal =>
      cases hnext
      simpa [acquire] using htake _ hglobal hfree
  | atFamily =>
      cases hnext
      simpa [acquire] using htake _ (hlooked _ (by simp [Call.looked])) hfree
  | atDistrict =>
      cases hnext
      simpa [acquire] using htake _ (hlooked _ (by simp [Call.looked])) hfree
  | atJob =>
      obtain ⟨j, hj, rfl⟩ := Option.map_eq_some_iff.mp hnext
      simp only at hj
      simpa [acquire, hj] using htake _ (hlooked _ (by simp [Call.looked, hj])) hfree
  | admitted | released | gone leaked => cases hnext

end

/-! ## Any number of calls -/

/-- No call of the run is cancelled. -/
def NoCancel (_ : State) (a : Action) : Prop := ∀ i, a ≠ .interrupt i .cancelled

theorem noCancel_proceed (s : State) (i : ℕ) : NoCancel s (.proceed i) := nofun

instance (s : State) : (a : Action) → Decidable (NoCancel s a)
  | .interrupt i .cancelled => .isFalse fun h => h i rfl
  | .interrupt _ .exception => .isTrue nofun
  | .call _ | .proceed _ | .release _ => .isTrue nofun

/-- What holds in every state reached without a cancellation: the books balance without losses, and every
    call finds the semaphores it has looked up. -/
structure State.Orderly (cfg : ScaleConfig) (s : State) : Prop where
  books : s.Books cfg
  noneLost : s.NoneLost
  global : (s.gov.value .global).isSome
  ready : ∀ c ∈ s.calls, c.Ready s.gov

section
variable {cfg : ScaleConfig} {s t : State}

theorem orderly_init (h : (system cfg).init s) : s.Orderly cfg := by
  have hbooks := books_init h
  obtain rfl := h
  exact ⟨hbooks, fun _ hc => absurd hc List.not_mem_nil, rfl, fun _ hc => absurd hc List.not_mem_nil⟩

/-- A move that keeps the semaphores keeps what the other calls know. -/
theorem Call.Ready.mono {g g' : Governor} {c : Call} (hc : c.Ready g)
    (hmade : ∀ sem, (g.value sem).isSome → (g'.value sem).isSome) : c.Ready g' :=
  ⟨fun sem hsem => hmade sem (hc.looked sem hsem), hc.job⟩

/-- **Step lemma**: a step that cancels no call keeps the order. -/
theorem orderly_step {a : Action} (hs : s.Orderly cfg) (hC : NoCancel s a)
    (h : (system cfg).step s a = some t) : t.Orderly cfg := by
  obtain ⟨hbooks, hnone⟩ := books_step hs.books h
  have hcancels : CancelsEmptyHanded s a := fun i _ hi => absurd hi (hC i)
  -- what one call's move does to all of them
  have hmove : ∀ (i : ℕ) (c : Call) (gov : Governor) (stage : Stage), s.calls[i]? = some c →
      (∀ sem, (s.gov.value sem).isSome → (gov.value sem).isSome) →
      ({ c with stage } : Call).Ready gov → t = ⟨gov, s.calls.set i { c with stage }⟩ →
      t.Orderly cfg := by
    intro i c gov stage _ hmade hready ht
    have hall : ∀ c ∈ t.calls, c.Ready t.gov := by
      rw [ht]
      exact Pool.forall_set (fun d hd => (hs.ready d hd).mono hmade) hready
    exact ⟨hbooks, hnone.mpr ⟨hs.noneLost, hcancels⟩, by rw [ht]; exact hmade _ hs.global, hall⟩
  cases a with
  | call req =>
      obtain rfl := Option.some.inj h
      refine ⟨hbooks, hnone.mpr ⟨hs.noneLost, hcancels⟩, hs.global, fun c hc => ?_⟩
      rcases List.mem_append.mp hc with hc | hc
      · exact hs.ready c hc
      · obtain rfl := List.mem_singleton.mp hc
        exact ⟨nofun, nofun⟩
  | proceed i =>
      obtain ⟨c, gov, stage, hc, hf, ht⟩ := State.move_eq_some h
      obtain ⟨hmade, hready⟩ := acquire_ready hf (hs.ready c (List.mem_of_getElem? hc))
      exact hmove i c gov stage hc hmade hready ht
  | interrupt i e =>
      obtain ⟨c, gov, stage, hc, hf, ht⟩ := State.move_eq_some (f := fun g c => interrupt g c e) h
      obtain ⟨hmade, hready⟩ := interrupt_ready hf
      exact hmove i c gov stage hc hmade hready ht
  | release i =>
      obtain ⟨c, gov, stage, hc, hf, ht⟩ := State.move_eq_some h
      obtain ⟨hmade, hready⟩ := release_ready hf
      exact hmove i c gov stage hc hmade hready ht

theorem orderly_of_reach (h : (system cfg).Reach NoCancel s) : s.Orderly cfg :=
  h.invariant (fun _ => orderly_init) fun _ _ _ hI hC hst => orderly_step hI hC hst

/-- In an orderly state a semaphore that no call holds is free. -/
theorem State.Orderly.free_pos (hs : s.Orderly cfg) {sem : Sem} (hheld : ∀ c ∈ s.calls, sem ∉ c.held) :
    1 ≤ s.gov.free cfg sem := by
  have hbooks := hs.books sem
  have hzero : s.held sem = 0 :=
    Pool.total_eq_zero_iff.mpr fun c hc => List.count_eq_zero.mpr (hheld c hc)
  have hlost : s.lost sem = 0 :=
    Pool.total_eq_zero_iff.mpr fun c hc => by simp [hs.noneLost c hc]
  have hcap : 1 ≤ cfg.cap sem := cfg.cap_pos sem
  omega

/-- A call that is not admitted yet waits for some semaphore. -/
theorem Call.Ready.next_isSome {g : Governor} {c : Call} (hc : c.Ready g) (hp : c.stage.pending) :
    c.next.isSome := by
  obtain ⟨req, st⟩ := c
  cases st with
  | atFamilySem | atDistrictSem | atJobSem | atGlobal | atFamily | atDistrict => rfl
  | atJob => simpa [Call.next] using hc.job rfl
  | admitted | released | gone leaked => cases hp

/-- **Step of progress**: with a call that is not admitted yet, some call is admitted or some call can take
    the next semaphore it needs. -/
theorem State.Orderly.progress (hs : s.Orderly cfg) (hp : ∃ c ∈ s.calls, c.stage.pending) :
    (∃ c ∈ s.calls, c.stage = .admitted) ∨
      ∃ i c sem, s.calls[i]? = some c ∧ c.next = some sem ∧ 1 ≤ s.gov.free cfg sem ∧
        ((system cfg).step s (.proceed i)).isSome := by
  by_cases hadm : ∃ c ∈ s.calls, c.stage = .admitted
  · exact .inl hadm
  · right
    have hwait : ∃ c ∈ s.calls, c.next.isSome := by
      obtain ⟨c, hc, hpend⟩ := hp
      exact ⟨c, hc, (hs.ready c hc).next_isSome hpend⟩
    obtain ⟨c, hc, sem, hnext, hheld⟩ := Pool.exists_waits_unheld
      Call.next (fun c sem => sem ∈ c.held) Sem.rank
      (fun c _ _ _ hsem hnext => Call.rank_lt hsem hnext) hwait
    -- who holds the semaphore does not wait, so it would be admitted
    have hfree : 1 ≤ s.gov.free cfg sem := hs.free_pos fun d hd hsem =>
      hadm ⟨d, hd, Call.admitted_of_held hsem (hheld d hd hsem) (hs.ready d hd).job⟩
    obtain ⟨i, hi⟩ := List.mem_iff_getElem?.mp hc
    refine ⟨i, c, sem, hi, hnext, hfree, ?_⟩
    obtain ⟨⟨gov, stage⟩, hf⟩ := Option.isSome_iff_exists.mp
      (acquire_isSome cfg (hs.ready c hc) hs.global hnext hfree)
    simp [system, step, State.move, hi, hf]

/-! ## Every call comes to its end -/

/-- The steps a call has still to make. -/
def Stage.remaining : Stage → ℕ
  | .atFamilySem => 8
  | .atDistrictSem => 7
  | .atJobSem => 6
  | .atGlobal => 5
  | .atFamily => 4
  | .atDistrict => 3
  | .atJob => 2
  | .admitted => 1
  | .released | .gone _ => 0

def State.remaining (s : State) : ℕ := Pool.total (fun c => c.stage.remaining) s.calls

/-- The steps of the calls themselves: no call arrives and none is interrupted. -/
def Action.moves : Action → Bool
  | .proceed _ | .release _ => true
  | _ => false

theorem acquire_remaining {g g' : Governor} {c : Call} {stage : Stage}
    (h : acquire cfg g c = some (g', stage)) : stage.remaining < c.stage.remaining := by
  obtain ⟨req, st⟩ := c
  cases st with
  | atFamilySem | atDistrictSem => cases h; simp [Stage.remaining]
  | atJobSem => simp only [acquire] at h; split at h <;> cases h <;> simp [Stage.remaining]
  | atGlobal | atFamily =>
      obtain ⟨g₁, -, heq⟩ := Option.map_eq_some_iff.mp h
      cases heq
      simp [Stage.remaining]
  | atDistrict =>
      obtain ⟨g₁, -, heq⟩ := Option.map_eq_some_iff.mp h
      cases hj : req.jobKey <;> simp only [hj] at heq <;> cases heq <;>
        simp [Stage.remaining]
  | atJob =>
      simp only [acquire] at h
      split at h
      · obtain ⟨g₁, -, heq⟩ := Option.map_eq_some_iff.mp h
        cases heq
        simp [Stage.remaining]
      · cases h
  | admitted | released | gone leaked => cases h

/-- **Step lemma**: every step of a call is one step less to make. -/
theorem remaining_step {a : Action} (ha : a.moves) (h : (system cfg).step s a = some t) :
    t.remaining < s.remaining := by
  -- what a move of one call does to the sum
  have hmove : ∀ (i : ℕ) (c : Call) (gov : Governor) (stage : Stage), s.calls[i]? = some c →
      stage.remaining < c.stage.remaining → t = ⟨gov, s.calls.set i { c with stage }⟩ →
      t.remaining < s.remaining := by
    intro i c gov stage hc hlt ht
    have hset := Pool.total_set (w := fun c => c.stage.remaining) hc { c with stage }
    simp only [ht, State.remaining] at hset ⊢
    omega
  cases a with
  | call req => cases ha
  | interrupt i e => cases ha
  | proceed i =>
      obtain ⟨c, gov, stage, hc, hf, ht⟩ := State.move_eq_some h
      exact hmove i c gov stage hc (acquire_remaining hf) ht
  | release i =>
      obtain ⟨c, gov, stage, hc, hf, ht⟩ := State.move_eq_some h
      refine hmove i c gov stage hc ?_ ht
      obtain ⟨hadm, hst⟩ := stage_of_release hf
      rw [hst, hadm]
      decide

/-- A run of the calls' own steps is no longer than the steps they have to make. -/
theorem length_le_remaining {acts : List Action} (hacts : ∀ a ∈ acts, a.moves)
    (h : (system cfg).exec s acts = some t) : acts.length ≤ s.remaining := by
  induction acts generalizing s with
  | nil => exact Nat.zero_le _
  | cons a acts ih =>
      rw [System.exec] at h
      obtain ⟨u, hu, ht⟩ := Option.bind_eq_some_iff.mp h
      have hlt := remaining_step (hacts a List.mem_cons_self) hu
      have hle := ih (fun b hb => hacts b (List.mem_cons_of_mem a hb)) ht
      simp only [List.length_cons]
      omega

/-- In an orderly state in which no call can go on and none can release, every call is over. -/
theorem State.Orderly.over (hs : s.Orderly cfg)
    (hstuck : ∀ a, a.moves → (system cfg).step s a = none) :
    ∀ c ∈ s.calls, ¬ c.stage.pending ∧ c.stage ≠ .admitted := by
  have hadm : ∀ c ∈ s.calls, c.stage ≠ .admitted := by
    intro c hc hst
    obtain ⟨i, hi⟩ := List.mem_iff_getElem?.mp hc
    have hnone := hstuck (.release i) rfl
    simp [system, step, State.move, hi, release, hst] at hnone
  intro c hc
  refine ⟨fun hp => ?_, hadm c hc⟩
  rcases hs.progress ⟨c, hc, hp⟩ with ⟨d, hd, hst⟩ | ⟨i, d, sem, -, -, -, hsome⟩
  · exact hadm d hd hst
  · rw [hstuck (.proceed i) rfl] at hsome
    cases hsome

end

/-- **The governor never deadlocks.** In every state reached by any calls, releases and raised exceptions,
    without a cancellation: as long as some call is not admitted yet, some call is admitted or some call
    finds the next semaphore it needs free and can go on. And whenever from then on calls only go on and
    release, in any order, they run out of steps after `s.remaining` at the latest, and where none is left
    every call has been admitted and released or has ended by an exception. -/
theorem never_deadlocks {cfg : ScaleConfig} {s : State} (h : (system cfg).Reach NoCancel s) :
    ((∃ c ∈ s.calls, c.stage.pending) →
      (∃ c ∈ s.calls, c.stage = .admitted) ∨
        ∃ i c sem, s.calls[i]? = some c ∧ c.next = some sem ∧ 1 ≤ s.gov.free cfg sem ∧
          ((system cfg).step s (.proceed i)).isSome) ∧
    ∀ acts t, (∀ a ∈ acts, a.moves) → (system cfg).exec s acts = some t →
      acts.length ≤ s.remaining ∧ ((∀ a, a.moves → (system cfg).step t a = none) →
        ∀ c ∈ t.calls, ¬ c.stage.pending ∧ c.stage ≠ .admitted) := by
  refine ⟨(orderly_of_reach h).progress, fun acts t hacts hex => ⟨length_le_remaining hacts hex, ?_⟩⟩
  have hmeets : (system cfg).Meets NoCancel s acts := by
    refine System.meets_of_forall (fun a ha _ i hi => ?_) s
    subst hi
    exact absurd (hacts _ ha) nofun
  exact (orderly_of_reach (h.run (System.run_of_meets hex hmeets))).over

/-- Two calls of the same family and job, both past the lookups; the first holds the global slot. -/
def twoWaiting : List Action :=
  [.call buildRequest, .call buildRequest] ++ List.replicate 3 (.proceed 1) ++
    List.replicate 4 (.proceed 0)

/-- The progress of two waiting calls: no call is admitted, so one can go on. -/
theorem two_waiting_progress :
    ∃ s, (system defaultConfig).exec ⟨Governor.new defaultConfig, []⟩ twoWaiting = some s ∧
      ∃ i, ((system defaultConfig).step s (.proceed i)).isSome := by
  have hex : (((system defaultConfig).exec ⟨Governor.new defaultConfig, []⟩ twoWaiting).any fun s =>
      s.calls.any (fun c => c.stage.pending) && s.calls.all fun c => c.stage ≠ .admitted) = true := by
    decide +kernel
  obtain ⟨s, hrun, hp⟩ := System.exists_of_exec hex
  simp only [Bool.and_eq_true, List.any_eq_true, List.all_eq_true, decide_eq_true_eq] at hp
  have hmeets : (system defaultConfig).Meets NoCancel ⟨Governor.new defaultConfig, []⟩ twoWaiting := by
    decide +kernel
  rcases (never_deadlocks ⟨_, rfl, System.run_of_meets hrun hmeets⟩).1 hp.1 with
    ⟨c, hc, hst⟩ | ⟨i, -, -, -, -, -, hsome⟩
  · exact absurd hst (hp.2 c hc)
  · exact ⟨s, hrun, i, hsome⟩

end Persola.City.Scale
