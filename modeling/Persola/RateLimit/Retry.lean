import Persola.RateLimit.Expiry
import Persola.Lib.Py
import Mathlib.Data.List.Induction
import Mathlib.Logic.Function.Basic

/-!
# `RateLimit.Retry` — what `Retry-After` promises

`invoke_agent` turns a client away with the number of seconds after which a token is there again, rounded to whole
ones. Whatever the other clients do and however Redis fails, a client that waits that long and keeps quiet meanwhile is
let in if and only if the rounding did not cut off time that the token needs (`retry_admitted_iff`).
-/

namespace Persola.RateLimit

open TokenBucketRateLimiter

/-- A request from a remote address, and whether Redis answers it. -/
structure Request where
  identifier : String
  now : ℚ
  up : Bool := true

/-- The `HTTPException` of a refused request. -/
structure Refusal where
  statusCode : ℕ
  detail : String
  headers : List (String × String)

/-- The keys of a limiter, by identifier. -/
abbrev Keys := String → Option RedisKey

namespace TokenBucketRateLimiter

/-- `consume` on the key of the request; without Redis it fails open. -/
def request (limiter : TokenBucketRateLimiter) (keys : Keys) (r : Request) : (Bool × ℤ) × Keys :=
  if r.up then
    let (answer, key) := limiter.consume (keys r.identifier) r.now 1
    (answer, Function.update keys r.identifier (some key))
  else ((true, limiter.capacity), keys)

/-- The keys after requests to a Redis that was empty. -/
def keysAfter (limiter : TokenBucketRateLimiter) (requests : List Request) : Keys :=
  requests.foldl (fun keys r => (limiter.request keys r).2) fun _ => none

/-- `retry_after`. -/
def retryAfter (limiter : TokenBucketRateLimiter) : ℤ := max 1 (Py.round 0 (1 / limiter.refillRate)).num

/-- `_invoke_rate_limit`. -/
def invokeRateLimit (limiter : TokenBucketRateLimiter) (keys : Keys) (r : Request) : Except Refusal Unit × Keys :=
  let ((allowed, _), keys) := limiter.request keys r
  (if allowed then .ok ()
    else .error ⟨429, "Rate limit exceeded",
      [("Retry-After", toString limiter.retryAfter), ("X-RateLimit-Remaining", "0")]⟩, keys)

/-- The request is let in. -/
def Admitted (limiter : TokenBucketRateLimiter) (keys : Keys) (r : Request) : Prop :=
  (limiter.invokeRateLimit keys r).1 = .ok ()

/-- Some client is refused, sends nothing that reaches Redis for as long as it was told, and then tries again. -/
structure RetriesAsTold (limiter : TokenBucketRateLimiter) (pre : List Request) (refused : Request)
    (mid : List Request) (retry : Request) : Prop where
  turnedAway : ¬ limiter.Admitted (limiter.keysAfter pre) refused
  quiet : ∀ r ∈ mid, r.up = true → r.identifier ≠ refused.identifier
  same : retry.identifier = refused.identifier
  waited : refused.now + limiter.retryAfter ≤ retry.now

/-! ## Requests -/

section
variable {limiter : TokenBucketRateLimiter} {keys : Keys} {r : Request} {identifier : String}

/-- The tokens a request finds. -/
def found (limiter : TokenBucketRateLimiter) (keys : Keys) (r : Request) : ℚ :=
  refilled (lookup (keys r.identifier) r.now) limiter.capacity limiter.refillRate r.now

/-- The tokens it leaves. -/
def kept (limiter : TokenBucketRateLimiter) (keys : Keys) (r : Request) : ℚ :=
  if 1 ≤ limiter.found keys r then limiter.found keys r - 1 else limiter.found keys r

/-- **What a request does while Redis is there.** -/
theorem request_eq (hup : r.up = true) : limiter.request keys r =
    ((decide (1 ≤ limiter.found keys r), ⌊limiter.kept keys r⌋),
      Function.update keys r.identifier (some ⟨⟨limiter.kept keys r, r.now⟩, r.now + limiter.ttl⟩)) := by
  have heval : limiter.eval (lookup (keys r.identifier) r.now) r.now 1 =
      (⟨if 1 ≤ limiter.found keys r then 1 else 0, ⌊limiter.kept keys r⌋⟩, ⟨limiter.kept keys r, r.now⟩) := by
    unfold eval
    rw [Int.cast_one, tokenBucketLua_eq]
    rfl
  unfold request consume
  rw [if_pos hup, heval]
  by_cases h : 1 ≤ limiter.found keys r
  · rw [if_pos h, decide_eq_true h]
    rfl
  · rw [if_neg h, decide_eq_false h]
    rfl

/-- The key it leaves. -/
theorem request_key (hup : r.up = true) : (limiter.request keys r).2 r.identifier =
    some ⟨⟨limiter.kept keys r, r.now⟩, r.now + limiter.ttl⟩ := by
  rw [request_eq hup]
  exact Function.update_self _ _ _

/-- A request that does not reach Redis leaves the keys. -/
theorem request_down (hup : r.up ≠ true) : limiter.request keys r = ((true, limiter.capacity), keys) := if_neg hup

theorem admitted_iff : limiter.Admitted keys r ↔ (r.up = true → 1 ≤ limiter.found keys r) := by
  unfold Admitted invokeRateLimit
  by_cases hup : r.up = true
  · rw [request_eq hup]
    by_cases h : 1 ≤ limiter.found keys r
    · simp [h, hup]
    · simp [h, hup]
  · rw [request_down hup]
    simp [hup]

/-! ## The keys -/

/-- No bucket holds less than nothing. -/
def Solvent (keys : Keys) : Prop := ∀ identifier key, keys identifier = some key → 0 ≤ key.hash.tokens

theorem Solvent.found_nonneg (h : Solvent keys) (limiter : TokenBucketRateLimiter) (r : Request) :
    0 ≤ limiter.found keys r := by
  refine refilled_nonneg (zero_le_one.trans limiter.capacity_cast_pos) limiter.refillRate_pos.le fun hash hhash => ?_
  obtain ⟨key, hkey, rfl⟩ := Option.map_eq_some_iff.mp hhash
  exact h _ key (Option.filter_eq_some_iff.mp hkey).1

theorem Solvent.kept_nonneg (h : Solvent keys) (limiter : TokenBucketRateLimiter) (r : Request) :
    0 ≤ limiter.kept keys r := by
  unfold kept
  split
  · next hone => exact sub_nonneg.mpr hone
  · exact h.found_nonneg limiter r

theorem Solvent.request (h : Solvent keys) (limiter : TokenBucketRateLimiter) (r : Request) :
    Solvent (limiter.request keys r).2 := by
  by_cases hup : r.up = true
  · rw [request_eq hup]
    intro identifier key hkey
    dsimp only at hkey
    by_cases hid : identifier = r.identifier
    · subst hid
      rw [Function.update_self] at hkey
      obtain rfl := Option.some.inj hkey
      exact h.kept_nonneg limiter r
    · rw [Function.update_of_ne hid] at hkey
      exact h identifier key hkey
  · rw [request_down hup]
    exact h

theorem solvent_keysAfter (limiter : TokenBucketRateLimiter) (requests : List Request) :
    Solvent (limiter.keysAfter requests) := by
  induction requests using List.reverseRecOn with
  | nil => exact fun _ _ h => by cases h
  | append_singleton requests r ih =>
      rw [keysAfter, List.foldl_append]
      exact ih.request limiter r

theorem keysAfter_append (limiter : TokenBucketRateLimiter) (pre post : List Request) :
    limiter.keysAfter (pre ++ post) =
      post.foldl (fun keys r => (limiter.request keys r).2) (limiter.keysAfter pre) := List.foldl_append

/-- Requests of others leave a key. -/
theorem quiet_foldl {requests : List Request} (h : ∀ r ∈ requests, r.up = true → r.identifier ≠ identifier) :
    requests.foldl (fun keys r => (limiter.request keys r).2) keys identifier = keys identifier := by
  induction requests generalizing keys with
  | nil => rfl
  | cons r requests ih =>
      obtain ⟨hr, hrest⟩ := List.forall_mem_cons.mp h
      rw [List.foldl_cons, ih hrest]
      by_cases hup : r.up = true
      · rw [request_eq hup]
        exact Function.update_of_ne (hr hup).symm _ _
      · rw [request_down hup]

/-- **What a client finds** some time after a request that left it with `tokens`. -/
theorem found_of_key {key : RedisKey} (hkey : keys r.identifier = some key)
    (hexpires : key.expiresAt = key.hash.lastRefill + limiter.ttl) (hlater : key.hash.lastRefill ≤ r.now)
    (htokens : 0 ≤ key.hash.tokens) :
    limiter.found keys r = min (limiter.capacity : ℚ)
      (key.hash.tokens + (r.now - key.hash.lastRefill) * limiter.refillRate) := by
  have hnonneg := sub_nonneg.mpr hlater
  unfold found lookup
  rw [hkey]
  by_cases halive : r.now < key.expiresAt
  · rw [Option.filter_some, if_pos (decide_eq_true halive), Option.map_some]
    show min _ (key.hash.tokens + max 0 (r.now - key.hash.lastRefill) * _) = _
    rw [max_eq_right hnonneg]
  · rw [Option.filter_some, if_neg (by simpa using halive), Option.map_none, refilled_none]
    -- by the time a key is gone its bucket is full
    refine (min_eq_left ?_).symm
    have hlong : (limiter.ttl : ℚ) ≤ r.now - key.hash.lastRefill := by
      have hexpired := not_lt.mp halive
      rw [hexpires] at hexpired
      linarith
    calc (limiter.capacity : ℚ) ≤ limiter.ttl * limiter.refillRate := limiter.capacity_le_ttl
      _ ≤ (r.now - key.hash.lastRefill) * limiter.refillRate :=
          mul_le_mul_of_nonneg_right hlong limiter.refillRate_pos.le
      _ ≤ key.hash.tokens + (r.now - key.hash.lastRefill) * limiter.refillRate := le_add_of_nonneg_left htokens

end

/-! ## The promise -/

theorem one_le_retryAfter (limiter : TokenBucketRateLimiter) : (1 : ℚ) ≤ limiter.retryAfter := by
  exact_mod_cast le_max_left (1 : ℤ) _

/-- A refused client that did as it was told finds the tokens of the time it waited, at least. -/
theorem admitted_of_retries {limiter : TokenBucketRateLimiter} {pre mid : List Request} {refused retry : Request}
    (h : limiter.RetriesAsTold pre refused mid retry) (hwhole : 1 ≤ limiter.retryAfter * limiter.refillRate) :
    limiter.Admitted (limiter.keysAfter (pre ++ refused :: mid)) retry := by
  rw [admitted_iff]
  intro _
  have hturned := h.turnedAway
  rw [admitted_iff, Classical.not_imp] at hturned
  obtain ⟨hup, -⟩ := hturned
  have hsolvent := solvent_keysAfter limiter pre
  have hkey : limiter.keysAfter (pre ++ refused :: mid) retry.identifier =
      some ⟨⟨limiter.kept (limiter.keysAfter pre) refused, refused.now⟩, refused.now + limiter.ttl⟩ := by
    rw [h.same, keysAfter_append, List.foldl_cons, quiet_foldl h.quiet, request_key hup]
  have hpositive := limiter.one_le_retryAfter
  have hwaited := h.waited
  have hkept := hsolvent.kept_nonneg limiter refused
  rw [found_of_key hkey rfl (by show refused.now ≤ retry.now; linarith) hkept]
  refine le_min limiter.capacity_cast_pos ?_
  have htime : (limiter.retryAfter : ℚ) ≤ retry.now - refused.now := by linarith
  have hinflow := mul_le_mul_of_nonneg_right htime limiter.refillRate_pos.le
  show 1 ≤ limiter.kept (limiter.keysAfter pre) refused + (retry.now - refused.now) * limiter.refillRate
  linarith

/-- A client that asks for one token after the other at once finds what is left. -/
theorem found_burst (limiter : TokenBucketRateLimiter) {n : ℕ} (hn : (n : ℚ) ≤ limiter.capacity) :
    limiter.found (limiter.keysAfter (List.replicate n ⟨"client", 0, true⟩)) ⟨"client", 0, true⟩ =
      limiter.capacity - n := by
  induction n with
  | zero =>
      show refilled none _ _ _ = _
      rw [refilled_none, Nat.cast_zero, sub_zero]
  | succ n ih =>
      rw [Nat.cast_succ] at hn
      have hfound := ih (by linarith)
      have hkept : limiter.kept (limiter.keysAfter (List.replicate n ⟨"client", 0, true⟩)) ⟨"client", 0, true⟩ =
          limiter.capacity - n - 1 := by
        rw [kept, hfound, if_pos (by linarith)]
      have hkey : limiter.keysAfter (List.replicate (n + 1) ⟨"client", 0, true⟩) "client" =
          some ⟨⟨limiter.capacity - n - 1, 0⟩, 0 + limiter.ttl⟩ := by
        rw [List.replicate_succ', keysAfter_append, List.foldl_cons, List.foldl_nil,
          request_key (r := ⟨"client", 0, true⟩) rfl, hkept]
      rw [found_of_key (r := ⟨"client", 0, true⟩) hkey rfl le_rfl (by dsimp only; linarith), Nat.cast_succ]
      dsimp only
      rw [sub_self, zero_mul, add_zero, min_eq_right (by linarith [Nat.cast_nonneg (α := ℚ) n])]
      ring

/-- **The promise of `Retry-After` is kept in every run exactly if so many whole seconds make a token.** -/
theorem retry_admitted_iff (limiter : TokenBucketRateLimiter) :
    (∀ pre refused mid retry, limiter.RetriesAsTold pre refused mid retry →
      limiter.Admitted (limiter.keysAfter (pre ++ refused :: mid)) retry) ↔
    1 ≤ limiter.retryAfter * limiter.refillRate := by
  refine ⟨fun hall => ?_, fun hwhole pre refused mid retry h => admitted_of_retries h hwhole⟩
  -- a client takes all there is, is refused and retries as told: it finds what came in meanwhile
  obtain ⟨n, hn⟩ := Int.eq_ofNat_of_zero_le (zero_le_one.trans limiter.capacity_pos)
  have hcast : (limiter.capacity : ℚ) = n := by rw [hn]; rfl
  have hfound := limiter.found_burst hcast.ge
  rw [hcast, sub_self] at hfound
  have hretry := hall (List.replicate n ⟨"client", 0, true⟩) ⟨"client", 0, true⟩ []
    ⟨"client", limiter.retryAfter, true⟩ ⟨?_, fun _ h => absurd h List.not_mem_nil, rfl, ?_⟩
  · have hkept : limiter.kept (limiter.keysAfter (List.replicate n ⟨"client", 0, true⟩)) ⟨"client", 0, true⟩ = 0 := by
      rw [kept, hfound, if_neg (by norm_num)]
    have hkey : limiter.keysAfter (List.replicate n ⟨"client", 0, true⟩ ++ [⟨"client", 0, true⟩]) "client" =
        some ⟨⟨0, 0⟩, 0 + limiter.ttl⟩ := by
      rw [keysAfter_append, List.foldl_cons, List.foldl_nil, request_key (r := ⟨"client", 0, true⟩) rfl, hkept]
    have hlater := zero_le_one.trans limiter.one_le_retryAfter
    have htokens := admitted_iff.mp hretry rfl
    rw [found_of_key (r := ⟨"client", limiter.retryAfter, true⟩) hkey rfl hlater le_rfl] at htokens
    dsimp only at htokens
    rw [zero_add, sub_zero] at htokens
    exact htokens.trans (min_le_right _ _)
  · rw [admitted_iff, hfound]
    exact fun h => absurd (h rfl) (by norm_num)
  · exact (zero_add _).le

/-- `_invoke_bucket`: a token every two seconds. -/
def invokeBucket : TokenBucketRateLimiter := ⟨30, 1 / 2, by norm_num, by norm_num⟩

/-- Its clients are told to wait as long as it takes. -/
example : invokeBucket.retryAfter = 2 := by decide +kernel

end TokenBucketRateLimiter

end Persola.RateLimit
