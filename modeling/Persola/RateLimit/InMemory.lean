import Persola.Lib.Bucket
import Persola.Lib.Py

/-!
# `RateLimit.InMemory` — the limiter of the city API

`_InMemoryTokenBucket` keeps one bucket for each identifier in a dictionary. `consume` reads the monotonic clock,
refills the bucket of its identifier and takes one token if there is one. A bucket that is not there yet is full.
-/

namespace Persola.RateLimit

open Bucket (level Grant Metered)

/-- `_InMemoryTokenBucket`; a bucket is its tokens and the time it was touched last. -/
structure InMemoryTokenBucket where
  capacity : ℚ := 60
  refillRate : ℚ := 1
  buckets : List (String × ℚ × ℚ) := []

/-- A call of `consume`, and what `time.monotonic()` reads in it. -/
structure Consume where
  identifier : String
  now : ℚ

/-- A call and its answer. -/
structure Answer where
  identifier : String
  now : ℚ
  granted : Bool
deriving DecidableEq

/-- What a call is granted: one token or none. -/
def Answer.grant (a : Answer) : Grant ℚ := ⟨a.now, if a.granted then 1 else 0⟩

namespace InMemoryTokenBucket

/-- `consume`. -/
def consume (b : InMemoryTokenBucket) (identifier : String) (now : ℚ) : Bool × InMemoryTokenBucket :=
  let (tokens, last) := (Py.getItem b.buckets identifier).getD (b.capacity, now)
  let tokens := min b.capacity (tokens + (now - last) * b.refillRate)
  if tokens < 1 then (false, { b with buckets := Py.setItem b.buckets identifier (tokens, now) })
  else (true, { b with buckets := Py.setItem b.buckets identifier (tokens - 1, now) })

/-- The limiter after a sequence of calls. -/
def after (b : InMemoryTokenBucket) (calls : List Consume) : InMemoryTokenBucket :=
  calls.foldl (fun b c => (b.consume c.identifier c.now).2) b

/-- The answers to a sequence of calls. -/
def answers (b : InMemoryTokenBucket) : List Consume → List Answer
  | [] => []
  | c :: calls =>
      let r := b.consume c.identifier c.now
      ⟨c.identifier, c.now, r.1⟩ :: r.2.answers calls

/-- The answers for one identifier. -/
def answersFor (b : InMemoryTokenBucket) (identifier : String) (calls : List Consume) : List Answer :=
  (b.answers calls).filter (·.identifier = identifier)

/-- The calls for an identifier that were granted from `s` to `t`. -/
def grantedIn (b : InMemoryTokenBucket) (identifier : String) (s t : ℚ) (calls : List Consume) : ℕ :=
  (b.answersFor identifier calls).countP fun a => s ≤ a.now ∧ a.now ≤ t ∧ a.granted

section
variable {b b' : InMemoryTokenBucket} {identifier other : String} {now tokens last s t : ℚ} {calls : List Consume}

/-! ## One call -/

/-- What the bucket of an identifier holds, and since when; one that is not there is full. -/
def entry (b : InMemoryTokenBucket) (identifier : String) (now : ℚ) : ℚ × ℚ :=
  (Py.getItem b.buckets identifier).getD (b.capacity, now)

theorem entry_of_mem {e : ℚ × ℚ} (he : e ∈ Py.getItem b.buckets identifier) : b.entry identifier now = e := by
  unfold entry
  rw [Option.mem_def.mp he]
  rfl

/-- The tokens a call finds. -/
def levelAt (b : InMemoryTokenBucket) (identifier : String) (now : ℚ) : ℚ :=
  level b.capacity b.refillRate (b.entry identifier now).1 (now - (b.entry identifier now).2)

/-- What a call leaves. -/
def left (b : InMemoryTokenBucket) (identifier : String) (now : ℚ) : ℚ :=
  if b.levelAt identifier now < 1 then b.levelAt identifier now else b.levelAt identifier now - 1

/-- **What a call does**: it is granted exactly if there is a whole token, and touches its own bucket only. -/
theorem consume_eq (b : InMemoryTokenBucket) (identifier : String) (now : ℚ) : b.consume identifier now =
    (decide (1 ≤ b.levelAt identifier now),
      { b with buckets := Py.setItem b.buckets identifier (b.left identifier now, now) }) := by
  have hunfold : b.consume identifier now =
      if b.levelAt identifier now < 1 then
        (false, { b with buckets := Py.setItem b.buckets identifier (b.levelAt identifier now, now) })
      else (true, { b with buckets := Py.setItem b.buckets identifier (b.levelAt identifier now - 1, now) }) := rfl
  unfold left
  rw [hunfold]
  by_cases hfew : b.levelAt identifier now < 1
  · rw [if_pos hfew, if_pos hfew, decide_eq_false (not_le.mpr hfew)]
  · rw [if_neg hfew, if_neg hfew, decide_eq_true (not_lt.mp hfew)]

theorem getItem_consume (b : InMemoryTokenBucket) (identifier other : String) (now : ℚ) :
    Py.getItem (b.consume identifier now).2.buckets other =
      if identifier = other then some (b.left identifier now, now) else Py.getItem b.buckets other := by
  rw [consume_eq]
  exact Py.getItem_setItem other

@[simp] theorem consume_capacity : (b.consume identifier now).2.capacity = b.capacity := by rw [consume_eq]

@[simp] theorem consume_refillRate : (b.consume identifier now).2.refillRate = b.refillRate := by rw [consume_eq]

theorem answersFor_cons (c : Consume) : b.answersFor identifier (c :: calls) =
    if c.identifier = identifier then
      ⟨c.identifier, c.now, decide (1 ≤ b.levelAt c.identifier c.now)⟩ ::
        (b.consume c.identifier c.now).2.answersFor identifier calls
    else (b.consume c.identifier c.now).2.answersFor identifier calls := by
  unfold answersFor
  rw [answers, List.filter_cons, consume_eq]
  by_cases hid : c.identifier = identifier
  · rw [if_pos hid, if_pos (decide_eq_true hid)]
  · rw [if_neg hid, if_neg (by simpa using hid)]

/-! ## What is stored -/

/-- Every bucket holds no less than nothing, no more than its capacity, and was touched by now. -/
structure Sound (b : InMemoryTokenBucket) (now : ℚ) : Prop where
  range : ∀ identifier tokens last, Py.getItem b.buckets identifier = some (tokens, last) →
    0 ≤ tokens ∧ tokens ≤ b.capacity
  touched : ∀ identifier tokens last, Py.getItem b.buckets identifier = some (tokens, last) → last ≤ now

theorem Sound.mono (h : b.Sound now) {later : ℚ} (hlater : now ≤ later) : b.Sound later :=
  ⟨h.range, fun identifier tokens last hitem => (h.touched identifier tokens last hitem).trans hlater⟩

/-- What is stored, or the full bucket that is not there. -/
theorem Sound.entry (h : b.Sound now) (hcapacity : 1 ≤ b.capacity) (identifier : String) :
    (0 ≤ (b.entry identifier now).1 ∧ (b.entry identifier now).1 ≤ b.capacity) ∧
      (b.entry identifier now).2 ≤ now := by
  unfold InMemoryTokenBucket.entry
  cases hitem : Py.getItem b.buckets identifier with
  | none => exact ⟨⟨zero_le_one.trans hcapacity, le_rfl⟩, le_rfl⟩
  | some e => exact ⟨h.range identifier e.1 e.2 hitem, h.touched identifier e.1 e.2 hitem⟩

/-- A call leaves no less than nothing, and no more than the level. -/
theorem Sound.left_range (h : b.Sound now) (hcapacity : 1 ≤ b.capacity) (hrate : 0 < b.refillRate)
    (identifier : String) : 0 ≤ b.left identifier now ∧ b.left identifier now ≤ b.capacity := by
  obtain ⟨⟨htokens, -⟩, hlast⟩ := h.entry hcapacity identifier
  have hnonneg : 0 ≤ b.levelAt identifier now :=
    Bucket.level_nonneg (zero_le_one.trans hcapacity) hrate.le (sub_nonneg.mpr hlast) htokens
  have hcap : b.levelAt identifier now ≤ b.capacity := Bucket.level_le_capacity
  unfold left
  split
  · exact ⟨hnonneg, hcap⟩
  · next hsome =>
      constructor
      · exact sub_nonneg.mpr (not_lt.mp hsome)
      · linarith

/-- **Step lemma**: a call keeps the limiter sound. -/
theorem sound_consume (h : b.Sound now) (hcapacity : 1 ≤ b.capacity) (hrate : 0 < b.refillRate)
    (identifier : String) : (b.consume identifier now).2.Sound now := by
  constructor
  · intro other tokens last hitem
    rw [getItem_consume] at hitem
    rw [consume_capacity]
    split at hitem
    · obtain ⟨rfl, rfl⟩ := Prod.mk.inj (Option.some.inj hitem)
      exact h.left_range hcapacity hrate identifier
    · exact h.range other tokens last hitem
  · intro other tokens last hitem
    rw [getItem_consume] at hitem
    split at hitem
    · obtain ⟨rfl, rfl⟩ := Prod.mk.inj (Option.some.inj hitem)
      exact le_rfl
    · exact h.touched other tokens last hitem

/-- The clock of the calls never goes back, and starts at `now` or later. -/
def ClockFrom (now : ℚ) (calls : List Consume) : Prop := (now :: calls.map (·.now)).Pairwise (· ≤ ·)

theorem clockFrom_cons {c : Consume} : ClockFrom now (c :: calls) ↔ now ≤ c.now ∧ ClockFrom c.now calls := by
  unfold ClockFrom
  rw [List.map_cons, List.pairwise_cons, List.forall_mem_cons]
  constructor
  · exact fun h => ⟨h.1.1, h.2⟩
  · rintro ⟨hnow, hrest⟩
    refine ⟨⟨hnow, fun later hlater => hnow.trans ?_⟩, hrest⟩
    exact (List.pairwise_cons.mp hrest).1 later hlater

/-- **Run lemma**: whatever calls were made, the limiter is sound. -/
theorem sound_after (h : b.Sound now) (hcapacity : 1 ≤ b.capacity) (hrate : 0 < b.refillRate)
    (hclock : ClockFrom now calls) : ∃ last, (b.after calls).Sound last := by
  induction calls generalizing b now with
  | nil => exact ⟨now, h⟩
  | cons c calls ih =>
      obtain ⟨hnow, hrest⟩ := clockFrom_cons.mp hclock
      have hstep := sound_consume (h.mono hnow) hcapacity hrate c.identifier
      exact ih hstep (by rwa [consume_capacity]) (by rwa [consume_refillRate]) hrest

/-! ## Grants -/

/-- **The grants of an identifier are metered.** -/
theorem metered (h : b.Sound now) (hcapacity : 1 ≤ b.capacity) (hrate : 0 < b.refillRate)
    (hclock : ClockFrom now calls) (identifier : String) : ∃ tokens last, 0 ≤ tokens ∧ tokens ≤ b.capacity ∧
      (∀ e ∈ Py.getItem b.buckets identifier, e = (tokens, last)) ∧
      Metered b.capacity b.refillRate tokens last ((b.answersFor identifier calls).map Answer.grant) := by
  induction calls generalizing b now with
  | nil =>
      obtain ⟨⟨htokens, hfull⟩, -⟩ := h.entry hcapacity identifier
      exact ⟨_, (b.entry identifier now).2, htokens, hfull, fun e he => (entry_of_mem he).symm, .nil _ _⟩
  | cons c calls ih =>
      obtain ⟨hnow, hrest⟩ := clockFrom_cons.mp hclock
      have hsound := h.mono hnow
      have hstep := sound_consume hsound hcapacity hrate c.identifier
      obtain ⟨tokens, last, htokens, hfull, hitem, hmetered⟩ :=
        ih hstep (by rwa [consume_capacity]) (by rwa [consume_refillRate]) hrest
      rw [consume_capacity] at hfull hmetered
      rw [consume_refillRate] at hmetered
      rw [getItem_consume] at hitem
      rw [answersFor_cons]
      by_cases hid : c.identifier = identifier
      · subst hid
        rw [if_pos rfl] at hitem
        obtain ⟨rfl, rfl⟩ := Prod.mk.inj (hitem _ rfl)
        obtain ⟨⟨hfrom, hto⟩, hlast⟩ := hsound.entry hcapacity c.identifier
        refine ⟨_, (b.entry c.identifier c.now).2, hfrom, hto, fun e he => (entry_of_mem he).symm, ?_⟩
        rw [if_pos rfl, List.map_cons]
        refine .cons hlast ?_ (hsound.left_range hcapacity hrate c.identifier).1 ?_ hmetered
        · show (0 : ℚ) ≤ if _ then 1 else 0
          split <;> norm_num
        · -- a token that is granted is taken from the level
          show b.left c.identifier c.now + (if _ then 1 else 0) ≤ b.levelAt c.identifier c.now
          unfold left
          by_cases hfew : b.levelAt c.identifier c.now < 1
          · rw [if_pos hfew, if_neg (by simpa using hfew), add_zero]
          · rw [if_neg hfew, if_pos (by simpa using hfew), sub_add_cancel]
      · rw [if_neg hid] at hitem
        rw [if_neg hid]
        exact ⟨tokens, last, htokens, hfull, hitem, hmetered⟩

/-- The grants of a window, counted and added up. -/
theorem grantedIn_eq (b : InMemoryTokenBucket) (identifier : String) (s t : ℚ) (calls : List Consume) :
    (b.grantedIn identifier s t calls : ℚ) =
      Bucket.grantedIn s t ((b.answersFor identifier calls).map Answer.grant) := by
  unfold grantedIn
  induction b.answersFor identifier calls with
  | nil => rfl
  | cons a answers ih =>
      rw [List.map_cons, Bucket.grantedIn_cons, List.countP_cons, Nat.cast_add, ih, add_comm]
      by_cases hin : s ≤ a.now ∧ a.now ≤ t
      · by_cases hgranted : a.granted = true
        · simp [Answer.grant, hin, hgranted]
        · simp [Answer.grant, hin, hgranted]
      · have hout : ¬ (s ≤ a.now ∧ a.now ≤ t ∧ a.granted = true) := fun h => hin ⟨h.1, h.2.1⟩
        simp only [Answer.grant, hin, hout, decide_false, if_false]
        simp

/-- A bucket with `n` tokens at its next call grants the next `n` calls. -/
theorem granted_of_level (hrate : 0 < b.refillRate) (hclock : calls.Pairwise fun c d => c.now ≤ d.now) {n : ℕ}
    (hlevel : ∀ c ∈ calls, c.identifier = identifier → (n : ℚ) ≤ b.levelAt identifier c.now) :
    ∀ a ∈ (b.answersFor identifier calls).take n, a.granted = true := by
  induction calls generalizing b n with
  | nil => exact fun a ha => by simp [answersFor, answers] at ha
  | cons c calls ih =>
      obtain ⟨hfirst, hclock⟩ := List.pairwise_cons.mp hclock
      rw [answersFor_cons]
      by_cases hid : c.identifier = identifier
      · subst hid
        cases n with
        | zero => exact fun a ha => by cases ha
        | succ n =>
            have hmany := hlevel c List.mem_cons_self rfl
            push_cast at hmany
            have hsome : 1 ≤ b.levelAt c.identifier c.now := le_trans (by simp) hmany
            rw [if_pos rfl, List.take_succ_cons, List.forall_mem_cons]
            refine ⟨decide_eq_true hsome, ih (by rwa [consume_refillRate]) hclock fun d hd hdid => ?_⟩
            -- what is left only grows until the next call
            have hleft : b.left c.identifier c.now = b.levelAt c.identifier c.now - 1 := if_neg (not_lt.mpr hsome)
            have hcap : b.levelAt c.identifier c.now ≤ b.capacity := Bucket.level_le_capacity
            unfold levelAt entry
            rw [getItem_consume, if_pos rfl, consume_capacity, consume_refillRate, Option.getD_some, hleft]
            refine le_trans ?_ (Bucket.le_level hrate.le (sub_nonneg.mpr (hfirst d hd)) (by linarith))
            linarith
      · rw [if_neg hid]
        refine ih (by rwa [consume_refillRate]) hclock fun d hd hdid => ?_
        have hsame := hlevel d (List.mem_cons_of_mem _ hd) hdid
        unfold levelAt entry at hsame ⊢
        rwa [getItem_consume, if_neg hid, consume_capacity, consume_refillRate]

/-! ## Identifiers -/

/-- **An identifier is answered as if it were alone.** -/
theorem answersFor_eq_alone (hcapacity : b'.capacity = b.capacity) (hrate : b'.refillRate = b.refillRate)
    (hitem : Py.getItem b'.buckets identifier = Py.getItem b.buckets identifier) :
    b.answersFor identifier calls = b'.answers (calls.filter (·.identifier = identifier)) := by
  induction calls generalizing b b' with
  | nil => rfl
  | cons c calls ih =>
      rw [answersFor_cons, List.filter_cons]
      by_cases hid : c.identifier = identifier
      · subst hid
        have hentry : b'.entry c.identifier c.now = b.entry c.identifier c.now := by
          unfold entry
          rw [hitem, hcapacity]
        have hlevel : b'.levelAt c.identifier c.now = b.levelAt c.identifier c.now := by
          unfold levelAt
          rw [hentry, hcapacity, hrate]
        have hleft : b'.left c.identifier c.now = b.left c.identifier c.now := by
          unfold left
          rw [hlevel]
        rw [if_pos rfl, if_pos (decide_eq_true rfl), answers, consume_eq b', hlevel, hleft]
        refine congrArg (_ :: ·) (ih ?_ ?_ ?_)
        · rw [consume_capacity]
          exact hcapacity
        · rw [consume_refillRate]
          exact hrate
        · rw [getItem_consume, if_pos rfl, Py.getItem_setItem, if_pos rfl]
      · rw [if_neg hid, if_neg (by simpa using hid)]
        refine ih ?_ ?_ ?_
        · rw [consume_capacity]
          exact hcapacity
        · rw [consume_refillRate]
          exact hrate
        · rw [getItem_consume, if_neg hid]
          exact hitem

@[simp] theorem after_capacity : (b.after calls).capacity = b.capacity := by
  induction calls generalizing b with
  | nil => rfl
  | cons c calls ih => exact ih.trans consume_capacity

@[simp] theorem after_refillRate : (b.after calls).refillRate = b.refillRate := by
  induction calls generalizing b with
  | nil => rfl
  | cons c calls ih => exact ih.trans consume_refillRate

/-- A bucket was touched by a call for its identifier, unless it was there from the start. -/
theorem touched_by_call (h : Py.getItem (b.after calls).buckets identifier = some (tokens, last)) :
    Py.getItem b.buckets identifier = some (tokens, last) ∨ ∃ c ∈ calls, c.identifier = identifier ∧ c.now = last := by
  induction calls generalizing b with
  | nil => exact .inl h
  | cons c calls ih =>
      rcases ih h with hitem | ⟨d, hd, hcall⟩
      · rw [getItem_consume] at hitem
        split at hitem
        · next hid => exact .inr ⟨c, List.mem_cons_self, hid, (Prod.mk.inj (Option.some.inj hitem)).2⟩
        · exact .inl hitem
      · exact .inr ⟨d, List.mem_cons_of_mem _ hd, hcall⟩

/-! ## A new limiter -/

/-- `_InMemoryTokenBucket(capacity, refill_rate)`. -/
def new (capacity refillRate : ℚ) : InMemoryTokenBucket where
  capacity := capacity
  refillRate := refillRate

theorem sound_new (capacity refillRate now : ℚ) : (new capacity refillRate).Sound now :=
  ⟨fun _ _ _ h => (by cases h), fun _ _ _ h => (by cases h)⟩

/-- Calls in order start somewhere. -/
theorem exists_clockFrom (h : calls.Pairwise fun c d => c.now ≤ d.now) : ∃ now, ClockFrom now calls := by
  cases calls with
  | nil => exact ⟨0, List.pairwise_singleton _ _⟩
  | cons c calls =>
      refine ⟨c.now, clockFrom_cons.mpr ⟨le_rfl, ?_⟩⟩
      exact List.pairwise_map.mpr h

/-- After `capacity / refill_rate` seconds without a call a bucket is full. -/
theorem levelAt_of_idle {capacity refillRate : ℚ} (hcapacity : 1 ≤ capacity) (hrate : 0 < refillRate)
    (hclock : calls.Pairwise fun c d => c.now ≤ d.now)
    (hidle : ∀ c ∈ calls, c.identifier = identifier → c.now + capacity / refillRate ≤ now) :
    ((new capacity refillRate).after calls).levelAt identifier now = capacity := by
  obtain ⟨start, hstart⟩ := exists_clockFrom hclock
  obtain ⟨later, hsound⟩ := sound_after (sound_new capacity refillRate start) hcapacity hrate hstart
  unfold levelAt entry
  rw [after_capacity, after_refillRate]
  cases hitem : Py.getItem ((new capacity refillRate).after calls).buckets identifier with
  | none => exact Bucket.level_capacity hrate.le (by rw [Option.getD_none, sub_self])
  | some e =>
      obtain ⟨c, hc, hid, hlast⟩ := (touched_by_call hitem).resolve_left (by intro h; cases h)
      have hlong := hidle c hc hid
      rw [hlast] at hlong
      refine Bucket.level_eq_capacity (hsound.range identifier e.1 e.2 hitem).1 ?_
      show capacity ≤ (now - e.2) * refillRate
      rw [← div_le_iff₀ hrate]
      linarith

end

/-- **What a limiter promises**: its buckets stay within their capacity; what is granted to an identifier in a
window of time is bounded; an identifier that paused for long enough is granted a whole capacity of calls; and no
identifier is answered differently because of others. -/
theorem consume_limits {capacity refillRate : ℚ} (hcapacity : 1 ≤ capacity) (hrate : 0 < refillRate)
    {calls : List Consume} (hclock : calls.Pairwise fun c d => c.now ≤ d.now) :
    (∀ pre post, calls = pre ++ post → ∀ identifier tokens last,
      Py.getItem ((new capacity refillRate).after pre).buckets identifier = some (tokens, last) →
        0 ≤ tokens ∧ tokens ≤ capacity) ∧
    (∀ identifier s t, s ≤ t → ((new capacity refillRate).grantedIn identifier s t calls : ℚ) ≤
      capacity + refillRate * (t - s)) ∧
    (∀ pre post, calls = pre ++ post → ∀ identifier,
      (∀ c ∈ pre, c.identifier = identifier → ∀ d ∈ post, d.identifier = identifier →
        c.now + capacity / refillRate ≤ d.now) →
      ∀ a ∈ (((new capacity refillRate).after pre).answersFor identifier post).take ⌊capacity⌋₊, a.granted = true) ∧
    ∀ identifier, (new capacity refillRate).answersFor identifier calls =
      (new capacity refillRate).answers (calls.filter (·.identifier = identifier)) := by
  obtain ⟨start, hstart⟩ := exists_clockFrom hclock
  refine ⟨?_, ?_, ?_, fun identifier => answersFor_eq_alone rfl rfl rfl⟩
  · intro pre post hcalls identifier tokens last hitem
    rw [hcalls] at hclock
    obtain ⟨start, hstart⟩ := exists_clockFrom (List.pairwise_append.mp hclock).1
    obtain ⟨later, hsound⟩ := sound_after (sound_new capacity refillRate start) hcapacity hrate hstart
    have hrange := hsound.range identifier tokens last hitem
    rwa [after_capacity] at hrange
  · intro identifier s t hst
    obtain ⟨tokens, last, htokens, hfull, -, hmetered⟩ :=
      metered (sound_new capacity refillRate start) hcapacity hrate hstart identifier
    rw [grantedIn_eq]
    exact hmetered.grantedIn_le hrate.le htokens hfull hst
  · intro pre post hcalls identifier hidle
    rw [hcalls] at hclock
    obtain ⟨hpre, hpost, -⟩ := List.pairwise_append.mp hclock
    refine granted_of_level (by rwa [after_refillRate]) hpost fun d hd hdid => ?_
    rw [levelAt_of_idle hcapacity hrate hpre fun c hc hcid => hidle c hc hcid d hd hdid]
    exact Nat.floor_le (zero_le_one.trans hcapacity)

/-- `_city_bucket`. -/
def cityBucket : InMemoryTokenBucket := new 60 1

/-- Sixty-one calls at once. -/
def burst : List Consume := List.replicate 61 ⟨"203.0.113.7", 0⟩

/-- Sixty calls a minute later. -/
def refilled : List Consume := List.replicate 60 ⟨"203.0.113.7", 60⟩

/-- The last call of the burst is refused, and after a minute there is room for sixty again. -/
theorem consume_cityBucket :
    (cityBucket.answers burst).map (·.granted) = List.replicate 60 true ++ [false] ∧
    (∀ a ∈ ((cityBucket.after burst).answersFor "203.0.113.7" refilled).take 60, a.granted = true) ∧
    (cityBucket.grantedIn "203.0.113.7" 0 60 (burst ++ refilled) : ℚ) ≤ 60 + 1 * (60 - 0) := by
  have hclock : (burst ++ refilled).Pairwise fun c d => c.now ≤ d.now := by decide +kernel
  have hcapacity : (1 : ℚ) ≤ 60 := by norm_num
  have hlimits := consume_limits hcapacity zero_lt_one hclock
  refine ⟨by decide +kernel, ?_, hlimits.2.1 "203.0.113.7" 0 60 (by norm_num)⟩
  have hgranted := hlimits.2.2.1 burst refilled rfl "203.0.113.7" fun c hc _ d hd _ => by
    rw [List.eq_of_mem_replicate hc, List.eq_of_mem_replicate hd]
    norm_num
  rwa [Nat.floor_ofNat] at hgranted

end InMemoryTokenBucket

/-- `_city_rate_limit`, on the limiter of the module: `429` is the status code it raises. -/
def cityRateLimit (b : InMemoryTokenBucket) (remoteAddress : String) (now : ℚ) :
    Except ℕ Unit × InMemoryTokenBucket :=
  let (granted, b) := b.consume remoteAddress now
  (if granted then .ok () else .error 429, b)

/-- A request goes through exactly if there is a token for its address, and what it leaves is what `consume` does. -/
theorem cityRateLimit_spec (b : InMemoryTokenBucket) (remoteAddress : String) (now : ℚ) :
    ((cityRateLimit b remoteAddress now).1 = .ok () ↔ 1 ≤ b.levelAt remoteAddress now) ∧
      (cityRateLimit b remoteAddress now).2 = (b.consume remoteAddress now).2 := by
  refine ⟨?_, rfl⟩
  have hunfold : (cityRateLimit b remoteAddress now).1 =
      if (b.consume remoteAddress now).1 then .ok () else .error 429 := rfl
  rw [hunfold, InMemoryTokenBucket.consume_eq]
  simp

end Persola.RateLimit
