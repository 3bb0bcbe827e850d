import Persola.Lib.Bucket
import Mathlib.Algebra.Order.Archimedean.Basic
import Mathlib.Data.Rat.Floor

/-!
# `RateLimit.Shared` — the limiter that servers share in Redis

`TokenBucketRateLimiter` keeps the bucket of an identifier in a Redis hash, and a Lua script refills it and takes
from it. The time is an argument of the script: each server passes its own. A stamp that lies behind the last one
counts as no time at all, yet it is stored, so the time up to the next stamp is credited a second time.

A key disappears some time after its last call. By then its bucket is full, so nobody can tell.
-/

namespace Persola.RateLimit

open Bucket (level Grant Metered)

/-- The hash of a key. -/
structure TokenHash where
  tokens : ℚ
  lastRefill : ℚ
deriving DecidableEq

/-- What the script returns. -/
structure ScriptReply where
  allowed : ℕ
  remaining : ℤ
deriving DecidableEq, Repr

/-- `_TOKEN_BUCKET_LUA`: what it returns, and the hash it leaves. -/
def tokenBucketLua (data : Option TokenHash) (capacity refillRate now requested : ℚ) : ScriptReply × TokenHash :=
  let tokens := (data.map (·.tokens)).getD capacity
  let lastRefill := (data.map (·.lastRefill)).getD now
  let elapsed := max 0 (now - lastRefill)
  let refilled := min capacity (tokens + elapsed * refillRate)
  if requested ≤ refilled then (⟨1, ⌊refilled - requested⌋⟩, ⟨refilled - requested, now⟩)
  else (⟨0, ⌊refilled⌋⟩, ⟨refilled, now⟩)

section
variable {data : Option TokenHash} {hash : TokenHash} {capacity refillRate now requested : ℚ}

/-! ## One execution -/

/-- The tokens an execution finds. -/
def refilled (data : Option TokenHash) (capacity refillRate now : ℚ) : ℚ :=
  level capacity refillRate ((data.map (·.tokens)).getD capacity) (max 0 (now - (data.map (·.lastRefill)).getD now))

/-- What an execution leaves. -/
def leftover (data : Option TokenHash) (capacity refillRate now requested : ℚ) : ℚ :=
  if requested ≤ refilled data capacity refillRate now then refilled data capacity refillRate now - requested
  else refilled data capacity refillRate now

/-- **What an execution does.** -/
theorem tokenBucketLua_eq : tokenBucketLua data capacity refillRate now requested =
    (⟨if requested ≤ refilled data capacity refillRate now then 1 else 0,
      ⌊leftover data capacity refillRate now requested⌋⟩, ⟨leftover data capacity refillRate now requested, now⟩) := by
  have hunfold : tokenBucketLua data capacity refillRate now requested =
      if requested ≤ refilled data capacity refillRate now then
        (⟨1, ⌊refilled data capacity refillRate now - requested⌋⟩,
          ⟨refilled data capacity refillRate now - requested, now⟩)
      else (⟨0, ⌊refilled data capacity refillRate now⌋⟩, ⟨refilled data capacity refillRate now, now⟩) := rfl
  unfold leftover
  rw [hunfold]
  by_cases hsome : requested ≤ refilled data capacity refillRate now
  · rw [if_pos hsome, if_pos hsome, if_pos hsome]
  · rw [if_neg hsome, if_neg hsome, if_neg hsome]

/-- A key that is not there has a full bucket. -/
theorem refilled_none : refilled none capacity refillRate now = capacity := by
  show min capacity (capacity + max 0 (now - now) * refillRate) = capacity
  rw [sub_self, max_self, zero_mul, add_zero, min_self]

theorem refilled_nonneg (hcapacity : 0 ≤ capacity) (hrate : 0 ≤ refillRate) (htokens : ∀ h ∈ data, 0 ≤ h.tokens) :
    0 ≤ refilled data capacity refillRate now := by
  refine Bucket.level_nonneg hcapacity hrate (le_max_left _ _) ?_
  cases data with
  | none => exact hcapacity
  | some hash => exact htokens hash rfl

/-- An execution never leaves less than nothing. -/
theorem leftover_nonneg (hcapacity : 0 ≤ capacity) (hrate : 0 ≤ refillRate) (htokens : ∀ h ∈ data, 0 ≤ h.tokens) :
    0 ≤ leftover data capacity refillRate now requested := by
  unfold leftover
  split
  · next hsome => exact sub_nonneg.mpr hsome
  · exact refilled_nonneg hcapacity hrate htokens

/-! ## Executions that ask for one token -/

/-- The tokens granted by executions with the given stamps, each asking for one. -/
def granted (capacity refillRate : ℚ) : Option TokenHash → List ℚ → ℕ
  | _, [] => 0
  | data, now :: nows =>
      let r := tokenBucketLua data capacity refillRate now 1
      r.1.allowed + granted capacity refillRate (some r.2) nows

/-- What each of them grants. -/
def grants (capacity refillRate : ℚ) : Option TokenHash → List ℚ → List (Grant ℚ)
  | _, [] => []
  | data, now :: nows =>
      let r := tokenBucketLua data capacity refillRate now 1
      ⟨now, r.1.allowed⟩ :: grants capacity refillRate (some r.2) nows

/-- All stamps in the window, so all grants count. -/
theorem granted_eq {nows : List ℚ} {a b : ℚ} (hin : ∀ now ∈ nows, a ≤ now ∧ now ≤ b) :
    (granted capacity refillRate data nows : ℚ) = Bucket.grantedIn a b (grants capacity refillRate data nows) := by
  induction nows generalizing data with
  | nil => rfl
  | cons now nows ih =>
      rw [List.forall_mem_cons] at hin
      rw [granted, grants, Bucket.grantedIn_cons, if_pos hin.1, Nat.cast_add, ih hin.2]

/-- **Stamps in order are metered.** -/
theorem metered_grants (hcapacity : 1 ≤ capacity) (hrate : 0 < refillRate) (hash : TokenHash)
    (htokens : 0 ≤ hash.tokens) {nows : List ℚ} (hforward : (hash.lastRefill :: nows).Pairwise (· ≤ ·)) :
    Metered capacity refillRate hash.tokens hash.lastRefill (grants capacity refillRate (some hash) nows) := by
  induction nows generalizing hash with
  | nil => exact .nil _ _
  | cons now nows ih =>
      obtain ⟨hlater, hrest⟩ := List.pairwise_cons.mp hforward
      have hnow : hash.lastRefill ≤ now := hlater now List.mem_cons_self
      have hfound : refilled (some hash) capacity refillRate now =
          level capacity refillRate hash.tokens (now - hash.lastRefill) :=
        congrArg (level capacity refillRate hash.tokens) (max_eq_right (sub_nonneg.mpr hnow))
      have hleft : 0 ≤ leftover (some hash) capacity refillRate now 1 :=
        leftover_nonneg (zero_le_one.trans hcapacity) hrate.le fun h hh => Option.some.inj hh ▸ htokens
      have htail := ih ⟨leftover (some hash) capacity refillRate now 1, now⟩ hleft hrest
      rw [grants, tokenBucketLua_eq]
      refine .cons hnow (Nat.cast_nonneg _) hleft ?_ htail
      show leftover (some hash) capacity refillRate now 1 + ((if _ then 1 else 0 : ℕ) : ℚ) ≤ _
      rw [← hfound]
      unfold leftover
      by_cases hsome : 1 ≤ refilled (some hash) capacity refillRate now
      · rw [if_pos hsome, if_pos hsome, Nat.cast_one, sub_add_cancel]
      · rw [if_neg hsome, if_neg hsome, Nat.cast_zero, add_zero]

/-- Stamps in order grant no more than a full bucket and what flows in between the first and the last. -/
theorem granted_le (hcapacity : 1 ≤ capacity) (hrate : 0 < refillRate) {nows : List ℚ} {a b : ℚ} (hab : a ≤ b)
    (hforward : nows.Pairwise (· ≤ ·)) (hin : ∀ now ∈ nows, a ≤ now ∧ now ≤ b) :
    (granted capacity refillRate none nows : ℚ) ≤ capacity + refillRate * (b - a) := by
  cases nows with
  | nil => exact add_nonneg (zero_le_one.trans hcapacity) (mul_nonneg hrate.le (sub_nonneg.mpr hab))
  | cons now nows =>
      -- the first execution finds what a full bucket would hold that was touched just now
      have hfirst : granted capacity refillRate none (now :: nows) =
          granted capacity refillRate (some ⟨capacity, now⟩) (now :: nows) := rfl
      have hfull : (now :: now :: nows).Pairwise (· ≤ ·) :=
        List.pairwise_cons.mpr ⟨List.forall_mem_cons.mpr ⟨le_rfl, (List.pairwise_cons.mp hforward).1⟩, hforward⟩
      have hmetered := metered_grants hcapacity hrate ⟨capacity, now⟩ (zero_le_one.trans hcapacity) hfull
      rw [hfirst, granted_eq hin]
      exact hmetered.grantedIn_le hrate.le (zero_le_one.trans hcapacity) le_rfl hab

/-! ## Stamps that go back -/

/-- The hash after executions with the given stamps. -/
def stored (capacity refillRate : ℚ) (data : Option TokenHash) (nows : List ℚ) : Option TokenHash :=
  nows.foldl (fun data now => some (tokenBucketLua data capacity refillRate now 1).2) data

theorem granted_append (earlier nows : List ℚ) : granted capacity refillRate data (earlier ++ nows) =
    granted capacity refillRate data earlier +
      granted capacity refillRate (stored capacity refillRate data earlier) nows := by
  induction earlier generalizing data with
  | nil => exact (Nat.zero_add _).symm
  | cons now earlier ih =>
      rw [List.cons_append, granted, granted, ih, Nat.add_assoc]
      rfl

theorem stored_nonneg (hcapacity : 1 ≤ capacity) (hrate : 0 < refillRate) (htokens : ∀ h ∈ data, 0 ≤ h.tokens)
    (nows : List ℚ) : ∀ h ∈ stored capacity refillRate data nows, 0 ≤ h.tokens := by
  induction nows generalizing data with
  | nil => exact htokens
  | cons now nows ih =>
      refine ih fun h hh => ?_
      rw [← Option.some.inj hh, tokenBucketLua_eq]
      exact leftover_nonneg (zero_le_one.trans hcapacity) hrate.le htokens

/-- An execution that grants nothing leaves what was there and has flown in. -/
theorem leftover_of_refused (hcapacity : 1 ≤ capacity) (hfew : ¬ 1 ≤ refilled (some hash) capacity refillRate now) :
    leftover (some hash) capacity refillRate now 1 = hash.tokens + max 0 (now - hash.lastRefill) * refillRate := by
  unfold leftover
  rw [if_neg hfew]
  have hlow : min capacity (hash.tokens + max 0 (now - hash.lastRefill) * refillRate) < 1 := not_le.mp hfew
  refine min_eq_right (le_of_lt ?_)
  rcases min_lt_iff.mp hlow with hcap | hflow
  · exact absurd hcapacity (not_le.mpr hcap)
  · exact hflow.trans_le hcapacity

/-- **Each way forth credits the same time again**: going back and forth for long enough grants a token. -/
theorem exists_granted {a b : ℚ} (hcapacity : 1 ≤ capacity) (hrate : 0 < refillRate) (hab : a < b) {k : ℕ}
    (hmany : 1 ≤ hash.tokens + k * ((b - a) * refillRate)) :
    ∃ nows, (∀ now ∈ nows, a ≤ now ∧ now ≤ b) ∧ 1 ≤ granted capacity refillRate (some hash) nows := by
  have hallowed (data : Option TokenHash) (now : ℚ) (nows : List ℚ)
      (hsome : 1 ≤ refilled data capacity refillRate now) : 1 ≤ granted capacity refillRate data (now :: nows) := by
    rw [granted, tokenBucketLua_eq]
    dsimp only
    rw [if_pos hsome]
    exact Nat.le_add_right _ _
  have hflow (hash : TokenHash) (now : ℚ) : 0 ≤ max 0 (now - hash.lastRefill) * refillRate :=
    mul_nonneg (le_max_left _ _) hrate.le
  induction k generalizing hash with
  | zero =>
      refine ⟨[a], by simp [hab.le], hallowed _ a [] (le_min hcapacity ?_)⟩
      refine le_trans ?_ (le_add_of_nonneg_right (hflow hash a))
      simpa using hmany
  | succ k ih =>
      by_cases hback : 1 ≤ refilled (some hash) capacity refillRate a
      · exact ⟨[a], by simp [hab.le], hallowed _ a [] hback⟩
      have hleft := leftover_of_refused hcapacity hback
      let low : TokenHash := ⟨leftover (some hash) capacity refillRate a 1, a⟩
      have hlow (nows : List ℚ) : granted capacity refillRate (some low) nows ≤
          granted capacity refillRate (some hash) (a :: nows) := by
        rw [granted, tokenBucketLua_eq]
        exact Nat.le_add_left _ _
      by_cases hforth : 1 ≤ refilled (some low) capacity refillRate b
      · exact ⟨[a, b], by simp [hab.le], (hallowed _ b [] hforth).trans (hlow [b])⟩
      have hgain := leftover_of_refused hcapacity hforth
      let high : TokenHash := ⟨leftover (some low) capacity refillRate b 1, b⟩
      have hhigh (nows : List ℚ) : granted capacity refillRate (some high) nows ≤
          granted capacity refillRate (some low) (b :: nows) := by
        rw [granted, tokenBucketLua_eq]
        exact Nat.le_add_left _ _
      -- a whole round without a grant leaves more tokens by the inflow of the window
      have hround : hash.tokens + (b - a) * refillRate ≤ high.tokens := by
        have hwidth : max 0 (b - low.lastRefill) = b - a := max_eq_right (sub_nonneg.mpr hab.le)
        rw [hwidth] at hgain
        show _ ≤ leftover (some low) capacity refillRate b 1
        rw [hgain]
        show _ ≤ leftover (some hash) capacity refillRate a 1 + (b - a) * refillRate
        rw [hleft]
        linarith [hflow hash a]
      have hnext : 1 ≤ high.tokens + k * ((b - a) * refillRate) := by
        push_cast at hmany
        linarith
      obtain ⟨nows, hin, hgranted⟩ := ih hnext
      refine ⟨a :: b :: nows, ?_, hgranted.trans ((hhigh nows).trans (hlow (b :: nows)))⟩
      rw [List.forall_mem_cons, List.forall_mem_cons]
      exact ⟨⟨le_rfl, hab.le⟩, ⟨hab.le, le_rfl⟩, hin⟩

/-- Stamps in a window that go back and forth grant as much as one likes. -/
theorem exists_granted_ge {a b : ℚ} (hcapacity : 1 ≤ capacity) (hrate : 0 < refillRate) (hab : a < b) (n : ℕ) :
    ∃ nows, (∀ now ∈ nows, a ≤ now ∧ now ≤ b) ∧ n ≤ granted capacity refillRate none nows := by
  induction n with
  | zero => exact ⟨[], by simp, Nat.zero_le _⟩
  | succ n ih =>
      obtain ⟨nows, hin, hgranted⟩ := ih
      have hwidth : 0 < (b - a) * refillRate := mul_pos (sub_pos.mpr hab) hrate
      have hmore : ∃ later, (∀ now ∈ later, a ≤ now ∧ now ≤ b) ∧
          1 ≤ granted capacity refillRate (stored capacity refillRate none nows) later := by
        cases hstored : stored capacity refillRate none nows with
        | none =>
            refine ⟨[a], by simp [hab.le], ?_⟩
            rw [granted, tokenBucketLua_eq, refilled_none]
            dsimp only
            rw [if_pos hcapacity]
            exact Nat.le_add_right _ _
        | some hash =>
            have hnone : ∀ h ∈ (none : Option TokenHash), 0 ≤ h.tokens := fun h hh => by cases hh
            have htokens := stored_nonneg hcapacity hrate hnone nows hash hstored
            obtain ⟨k, hk⟩ := exists_nat_ge (1 / ((b - a) * refillRate))
            rw [div_le_iff₀ hwidth] at hk
            exact exists_granted hcapacity hrate hab (k := k) (by linarith)
      obtain ⟨later, hlater, hone⟩ := hmore
      refine ⟨nows ++ later, fun now hnow => ?_, ?_⟩
      · exact (List.mem_append.mp hnow).elim (hin now) (hlater now)
      · rw [granted_append]
        exact Nat.add_le_add hgranted hone

end

/-- **What executions with the stamps of several servers grant**: while no stamp lies behind an earlier one, no more
than a full bucket and what flows in in between; otherwise as much as one likes, however close the stamps are. -/
theorem granted_bound {capacity refillRate a b : ℚ} (hcapacity : 1 ≤ capacity) (hrate : 0 < refillRate)
    (hab : a ≤ b) :
    (∀ nows : List ℚ, nows.Pairwise (· ≤ ·) → (∀ now ∈ nows, a ≤ now ∧ now ≤ b) →
      (granted capacity refillRate none nows : ℚ) ≤ capacity + refillRate * (b - a)) ∧
    (a < b → ∀ n, ∃ nows : List ℚ, (∀ now ∈ nows, a ≤ now ∧ now ≤ b) ∧ n ≤ granted capacity refillRate none nows) :=
  ⟨fun _ hforward hin => granted_le hcapacity hrate hab hforward hin,
    fun hab n => exists_granted_ge hcapacity hrate hab n⟩

/-- Stamps in order. -/
theorem granted_inOrder : (granted 1 1 none [0, 0, 1, 1] : ℚ) ≤ 1 + 1 * (1 - 0) :=
  (granted_bound (by norm_num) (by norm_num) zero_le_one).1 [0, 0, 1, 1] (by simp) (by simp)

/-- **Two clocks a second apart, taking turns.** -/
theorem granted_takingTurns : ¬ ∀ (capacity refillRate a b : ℚ) (nows : List ℚ), 1 ≤ capacity → 0 < refillRate →
    (∀ now ∈ nows, a ≤ now ∧ now ≤ b) →
      (granted capacity refillRate none nows : ℚ) ≤ capacity + refillRate * (b - a) := by
  intro hall
  have hthree : granted 1 1 none [0, 1, 0, 1] = 3 := by decide +kernel
  have hbound := hall 1 1 0 1 [0, 1, 0, 1] (by norm_num) (by norm_num) (by simp)
  rw [hthree] at hbound
  norm_num at hbound

end Persola.RateLimit
