import Persola.RateLimit.Shared

/-!
# `RateLimit.Expiry` — keys that disappear

Every call sets the time to live of its key anew: twice the time an empty bucket takes to fill up, cut down to whole
seconds, and a minute at least. A key that has disappeared was therefore full, and so is the bucket of a key that is
not there: keys that expire and keys that stay answer the same (`answers_eq_kept`), whatever is asked for.
-/

namespace Persola.RateLimit

/-- `TokenBucketRateLimiter`. -/
structure TokenBucketRateLimiter where
  capacity : ℤ
  refillRate : ℚ
  capacity_pos : 1 ≤ capacity
  refillRate_pos : 0 < refillRate

/-- A key of Redis that was given a time to live. -/
structure RedisKey where
  hash : TokenHash
  expiresAt : ℚ

namespace TokenBucketRateLimiter

/-- `__init__`. -/
def init (capacity : ℤ) (refillRate : ℚ) : Except String TokenBucketRateLimiter :=
  if hcapacity : 1 ≤ capacity then
    if hrate : 0 < refillRate then .ok ⟨capacity, refillRate, hcapacity, hrate⟩
    else .error "refill_rate must be > 0"
  else .error "capacity must be >= 1"

/-- The limiters are those that `__init__` makes. -/
theorem init_eq (limiter : TokenBucketRateLimiter) : init limiter.capacity limiter.refillRate = .ok limiter := by
  unfold init
  rw [dif_pos limiter.capacity_pos, dif_pos limiter.refillRate_pos]

/-- `_ttl`. -/
def ttl (limiter : TokenBucketRateLimiter) : ℤ := max 60 ⌊limiter.capacity / limiter.refillRate * 2⌋

/-- The script with the arguments of the limiter. -/
def eval (limiter : TokenBucketRateLimiter) (data : Option TokenHash) (now : ℚ) (tokens : ℤ) :
    ScriptReply × TokenHash :=
  tokenBucketLua data limiter.capacity limiter.refillRate now tokens

/-- What Redis still has of a key. -/
def lookup (key : Option RedisKey) (now : ℚ) : Option TokenHash :=
  (key.filter (now < ·.expiresAt)).map (·.hash)

/-- `consume`: whether the call is allowed and what remains, and the key with its new time to live. -/
def consume (limiter : TokenBucketRateLimiter) (key : Option RedisKey) (now : ℚ) (tokens : ℤ) :
    (Bool × ℤ) × RedisKey :=
  let (reply, hash) := limiter.eval (lookup key now) now tokens
  ((reply.allowed = 1, reply.remaining), ⟨hash, now + limiter.ttl⟩)

/-- `consume` with a Redis that lets nothing expire. -/
def consumeKept (limiter : TokenBucketRateLimiter) (data : Option TokenHash) (now : ℚ) (tokens : ℤ) :
    (Bool × ℤ) × TokenHash :=
  let (reply, hash) := limiter.eval data now tokens
  ((reply.allowed = 1, reply.remaining), hash)

/-- The answers to calls at the given times. -/
def answers (limiter : TokenBucketRateLimiter) : Option RedisKey → List (ℚ × ℤ) → List (Bool × ℤ)
  | _, [] => []
  | key, (now, tokens) :: calls =>
      let r := limiter.consume key now tokens
      r.1 :: limiter.answers (some r.2) calls

/-- The answers if nothing expires. -/
def answersKept (limiter : TokenBucketRateLimiter) : Option TokenHash → List (ℚ × ℤ) → List (Bool × ℤ)
  | _, [] => []
  | data, (now, tokens) :: calls =>
      let r := limiter.consumeKept data now tokens
      r.1 :: limiter.answersKept (some r.2) calls

section
variable {limiter : TokenBucketRateLimiter} {key : Option RedisKey} {data : Option TokenHash} {now : ℚ}
  {calls : List (ℚ × ℤ)}

theorem capacity_cast_pos (limiter : TokenBucketRateLimiter) : (1 : ℚ) ≤ limiter.capacity := by
  exact_mod_cast limiter.capacity_pos

/-- **A key lives until its bucket is full**: cutting off the fraction of a second costs less than the half that the
factor of two adds, from a minute on. -/
theorem capacity_le_ttl (limiter : TokenBucketRateLimiter) :
    (limiter.capacity : ℚ) ≤ limiter.ttl * limiter.refillRate := by
  rw [← div_le_iff₀ limiter.refillRate_pos]
  have hminute : (60 : ℚ) ≤ limiter.ttl := by exact_mod_cast le_max_left _ _
  have hdouble : ((⌊limiter.capacity / limiter.refillRate * 2⌋ : ℤ) : ℚ) ≤ limiter.ttl := by
    exact_mod_cast le_max_right _ _
  have hfloor := Int.lt_floor_add_one (limiter.capacity / limiter.refillRate * 2)
  rcases le_or_gt ((limiter.capacity : ℚ) / limiter.refillRate) 60 with hshort | hlong
  · exact hshort.trans hminute
  · linarith

/-- The key is what would be kept, and it was set at the last call. -/
structure Tracks (limiter : TokenBucketRateLimiter) (key : Option RedisKey) (data : Option TokenHash) : Prop where
  same : key.map (·.hash) = data
  nonneg : ∀ h ∈ data, 0 ≤ h.tokens
  expires : ∀ k ∈ key, k.expiresAt = k.hash.lastRefill + limiter.ttl

/-- **Whether a key has disappeared makes no difference to the next call.** -/
theorem eval_lookup (h : limiter.Tracks key data) (tokens : ℤ) :
    limiter.eval (lookup key now) now tokens = limiter.eval data now tokens := by
  cases key with
  | none =>
      obtain rfl := h.same
      rfl
  | some k =>
      obtain rfl : some k.hash = data := h.same
      unfold lookup
      by_cases halive : now < k.expiresAt
      · rw [Option.filter_some, if_pos (decide_eq_true halive), Option.map_some]
      · rw [Option.filter_some, if_neg (by simpa using halive), Option.map_none]
        have hlong : (limiter.ttl : ℚ) ≤ now - k.hash.lastRefill := by
          have hexpired := not_lt.mp halive
          rw [h.expires k rfl] at hexpired
          linarith
        have hfull : refilled (some k.hash) limiter.capacity limiter.refillRate now = limiter.capacity := by
          refine Bucket.level_eq_capacity (h.nonneg _ rfl) ?_
          refine limiter.capacity_le_ttl.trans (mul_le_mul_of_nonneg_right ?_ limiter.refillRate_pos.le)
          exact hlong.trans (le_max_right _ _)
        have hleft : leftover none limiter.capacity limiter.refillRate now tokens =
            leftover (some k.hash) limiter.capacity limiter.refillRate now tokens := by
          unfold leftover
          rw [refilled_none, hfull]
        unfold eval
        rw [tokenBucketLua_eq, tokenBucketLua_eq, hleft, refilled_none, hfull]

/-- **Step lemma**: a call answers the same, and leaves the same. -/
theorem consume_tracks (h : limiter.Tracks key data) (now : ℚ) (tokens : ℤ) :
    (limiter.consume key now tokens).1 = (limiter.consumeKept data now tokens).1 ∧
      limiter.Tracks (some (limiter.consume key now tokens).2) (some (limiter.consumeKept data now tokens).2) := by
  unfold consume consumeKept
  rw [eval_lookup h]
  refine ⟨rfl, rfl, fun hash hhash => ?_, fun k hk => ?_⟩
  · rw [← Option.some.inj hhash, eval, tokenBucketLua_eq]
    exact leftover_nonneg (zero_le_one.trans limiter.capacity_cast_pos) limiter.refillRate_pos.le h.nonneg
  · rw [← Option.some.inj hk, eval, tokenBucketLua_eq]

/-- **Run lemma.** -/
theorem answers_of_tracks (h : limiter.Tracks key data) :
    limiter.answers key calls = limiter.answersKept data calls := by
  induction calls generalizing key data with
  | nil => rfl
  | cons call calls ih =>
      obtain ⟨hanswer, hnext⟩ := consume_tracks h call.1 call.2
      rw [answers, answersKept, hanswer, ih hnext]

end

/-- **Expiry is unobservable.** -/
theorem answers_eq_kept (limiter : TokenBucketRateLimiter) (calls : List (ℚ × ℤ)) :
    limiter.answers none calls = limiter.answersKept none calls :=
  answers_of_tracks ⟨rfl, fun _ h => (by cases h), fun _ h => (by cases h)⟩

end TokenBucketRateLimiter

end Persola.RateLimit
