import Persola.Lib.Py
import Persola.City.Stream

/-!
# `City.Timeline` — which events the chronicle of the city lists

`city_chronicle` fetches a bounded page of events, keeps those wanted and shows the last `limit` of them. The page
of the whole city is its newest events; the page of a family is its *oldest*, so that a family's chronicle stops
at some point and never moves again. With `life_only` four times as many are fetched as are shown, and a city
where less than a quarter of the news is about lives shows fewer than it has. `chronicle_newest_iff` says when the
newest events are shown.
-/

namespace Persola.City.Timeline

open Select

/-- An event, with the generation that its payload names. -/
structure Event extends Stream.CityEvent where
  generation : Option ℤ
deriving DecidableEq, Repr

/-- The families and the event log. -/
structure Log where
  families : List ℕ
  events : List Event

/-- `CityEventRepository.list_for_family`. -/
def Log.listForFamily (log : Log) (familyId : ℕ) (limit : ℕ) : List Event :=
  (orderBy (·.createdAt) (log.events.filter (·.familyId = some familyId))).take limit

/-- `CityEventRepository.list_recent`: the newest first, then reversed. -/
def Log.listRecent (log : Log) (limit : ℕ) : List Event :=
  ((orderByDesc (·.createdAt) log.events).take limit).reverse

/-- The events of `life_only`. -/
def lifeEvents : List String := ["life.aged", "member.died", "legacy.passed", "agent.spawned", "family.created"]

/-- The era of an event, if it has one. -/
def Event.era (e : Event) : Option String := e.generation.map fun gen => "G" ++ toString gen

/-- One event more in the count of its era. -/
def countEra (eras : List (String × ℕ)) (e : Event) : List (String × ℕ) :=
  match e.era with
  | none => eras
  | some era => Py.setItem eras era ((Py.getItem eras era).getD 0 + 1)

structure Chronicle where
  events : List Event
  count : ℕ
  eras : List (String × ℕ)
deriving DecidableEq, Repr

/-- The type of an event is one that is asked for. -/
def Wanted (lifeOnly : Bool) (e : Event) : Prop := lifeOnly = true → e.eventType ∈ lifeEvents

instance (lifeOnly : Bool) (e : Event) : Decidable (Wanted lifeOnly e) :=
  inferInstanceAs (Decidable (_ → _))

/-- How many events are fetched. -/
def fetchN (limit : ℕ) (lifeOnly : Bool) : ℕ := if lifeOnly then limit * 4 else limit

/-- The page that is fetched; `none` stands for a family that does not exist. -/
def Log.fetch (log : Log) (familyId : Option ℕ) (n : ℕ) : Option (List Event) :=
  match familyId with
  | some f => if f ∈ log.families then some (log.listForFamily f n) else none
  | none => some (log.listRecent n)

/-- `CityService.city_chronicle`, for a limit of at least 1. -/
def cityChronicle (log : Log) (limit : ℕ) (lifeOnly : Bool) (familyId : Option ℕ) : Except String Chronicle :=
  match log.fetch familyId (fetchN limit lifeOnly) with
  | none => .error "Family not found"
  | some raw =>
      -- `raw[-limit:]`, where there are more
      let rows := lastN limit (raw.filter (Wanted lifeOnly))
      .ok ⟨rows, rows.length, rows.foldl countEra []⟩

/-! ## Eras -/

theorem getItem_countEra (eras : List (String × ℕ)) (e : Event) (era : String) :
    (Py.getItem (countEra eras e) era).getD 0 =
      (Py.getItem eras era).getD 0 + if e.era = some era then 1 else 0 := by
  unfold countEra
  cases hera : e.era with
  | none => rw [if_neg (by simp), Nat.add_zero]
  | some own =>
      dsimp only
      rw [Py.getItem_setItem]
      by_cases heq : own = era
      · rw [if_pos heq, if_pos (congrArg some heq), heq, Option.getD_some]
      · rw [if_neg heq, if_neg fun h => heq (Option.some.inj h), Nat.add_zero]

/-- **The eras count the events that are listed.** -/
theorem eras_spec {log : Log} {limit : ℕ} {lifeOnly : Bool} {familyId : Option ℕ} {c : Chronicle}
    (h : cityChronicle log limit lifeOnly familyId = .ok c) (era : String) :
    (Py.getItem c.eras era).getD 0 = c.events.countP fun e => e.era = some era := by
  have hfold (rows : List Event) (eras : List (String × ℕ)) : (Py.getItem (rows.foldl countEra eras) era).getD 0 =
      (Py.getItem eras era).getD 0 + rows.countP fun e => e.era = some era := by
    induction rows generalizing eras with
    | nil => rfl
    | cons e rows ih =>
        rw [List.foldl_cons, ih, getItem_countEra, List.countP_cons, Nat.add_assoc]
        congr 1
        rw [Nat.add_comm]
        simp
  unfold cityChronicle at h
  split at h
  · cases h
  · obtain rfl := Except.ok.inj h
    rw [hfold]
    exact Nat.zero_add _

/-! ## The events that are listed -/

/-- The events a chronicle is about. -/
def Chronicled (lifeOnly : Bool) (familyId : Option ℕ) (e : Event) : Prop :=
  (∀ f ∈ familyId, e.familyId = some f) ∧ Wanted lifeOnly e

instance (lifeOnly : Bool) (familyId : Option ℕ) (e : Event) : Decidable (Chronicled lifeOnly familyId e) :=
  inferInstanceAs (Decidable (_ ∧ _))

/-- How many events of the family are older. -/
def Log.older (log : Log) (f : ℕ) (e : Event) : ℕ :=
  log.events.countP fun e' => e'.familyId = some f ∧ e'.createdAt < e.createdAt

/-- How many events of the city are newer. -/
def Log.newer (log : Log) (e : Event) : ℕ := log.events.countP (e.createdAt < ·.createdAt)

/-- What is fetched has what is to be shown. Of a family the oldest events are fetched: they have all that are
wanted. Of the city the newest are: with `life_only` they have all life events, or `limit` of them. -/
def Log.Reached (log : Log) (limit : ℕ) (lifeOnly : Bool) : Option ℕ → Prop
  | some f => ∀ e ∈ log.events, Chronicled lifeOnly (some f) e → log.older f e < fetchN limit lifeOnly
  | none => lifeOnly = true → (∀ e ∈ log.events, Wanted true e → log.newer e < limit * 4) ∨
      limit ≤ log.events.countP fun e => Wanted true e ∧ log.newer e < limit * 4

instance (log : Log) (limit : ℕ) (lifeOnly : Bool) : (familyId : Option ℕ) →
    Decidable (log.Reached limit lifeOnly familyId)
  | some _ => inferInstanceAs (Decidable (∀ e ∈ log.events, _ → _))
  | none => inferInstanceAs (Decidable (_ → _ ∨ _))

/-- The chronicle lists the newest events that it is about, in chronological order. -/
def Log.ShowsNewest (log : Log) (limit : ℕ) (lifeOnly : Bool) (familyId : Option ℕ) : Prop :=
  ∃ c, cityChronicle log limit lifeOnly familyId = .ok c ∧
    Newest (·.createdAt) limit (log.events.filter (Chronicled lifeOnly familyId)) c.events

section
variable {log : Log} {limit : ℕ} {lifeOnly : Bool} {familyId : Option ℕ}

theorem showsNewest_iff {raw : List Event} (hraw : log.fetch familyId (fetchN limit lifeOnly) = some raw) :
    log.ShowsNewest limit lifeOnly familyId ↔ Newest (·.createdAt) limit
      (log.events.filter (Chronicled lifeOnly familyId)) (lastN limit (raw.filter (Wanted lifeOnly))) := by
  unfold Log.ShowsNewest cityChronicle
  rw [hraw]
  constructor
  · rintro ⟨c, hc, hnewest⟩
    obtain rfl := Except.ok.inj hc
    exact hnewest
  · intro hnewest
    exact ⟨_, rfl, hnewest⟩

/-- The chronicle of a family. -/
theorem showsNewest_family_iff {f : ℕ} (hlog : (log.events.map (·.createdAt)).Nodup) (hlimit : 1 ≤ limit)
    (hf : f ∈ log.families) : log.ShowsNewest limit lifeOnly (some f) ↔ log.Reached limit lifeOnly (some f) := by
  have hrows : ((log.events.filter (·.familyId = some f)).map (·.createdAt)).Nodup :=
    hlog.sublist (List.filter_sublist.map _)
  have hwanted : log.events.filter (Chronicled lifeOnly (some f)) =
      (log.events.filter (·.familyId = some f)).filter (Wanted lifeOnly) := by
    rw [List.filter_filter]
    refine List.filter_congr fun e _ => ?_
    simp [Chronicled, Bool.and_comm]
  have hfetch : log.fetch (some f) (fetchN limit lifeOnly) = some (log.listForFamily f (fetchN limit lifeOnly)) :=
    if_pos hf
  have holder (e : Event) : (log.events.filter (·.familyId = some f)).countP (·.createdAt < e.createdAt) =
      log.older f e := by
    rw [List.countP_filter]
    refine List.countP_congr fun e' _ => ?_
    simp [and_comm]
  rw [showsNewest_iff hfetch, hwanted, Log.listForFamily, newest_filter_take_iff hrows hlimit]
  constructor
  · rintro hall e he ⟨hfamily, hw⟩
    rw [← holder]
    exact hall e (List.mem_filter.mpr ⟨he, decide_eq_true (hfamily f rfl)⟩) (decide_eq_true hw)
  · intro hall e he hw
    obtain ⟨he, hfamily⟩ := List.mem_filter.mp he
    rw [holder]
    refine hall e he ⟨fun f' hf' => ?_, of_decide_eq_true hw⟩
    rw [← Option.some.inj hf']
    exact of_decide_eq_true hfamily

/-- The chronicle of the city. -/
theorem showsNewest_city_iff (hlog : (log.events.map (·.createdAt)).Nodup) :
    log.ShowsNewest limit lifeOnly none ↔ log.Reached limit lifeOnly none := by
  have hwanted : log.events.filter (Chronicled lifeOnly none) = log.events.filter (Wanted lifeOnly) :=
    List.filter_congr fun e _ => by simp [Chronicled]
  have hfetch : log.fetch none (fetchN limit lifeOnly) = some (log.listRecent (fetchN limit lifeOnly)) := rfl
  rw [showsNewest_iff hfetch, hwanted, Log.listRecent, reverse_take_orderByDesc hlog]
  cases lifeOnly with
  | false =>
      have hall (rows : List Event) : rows.filter (Wanted false) = rows :=
        List.filter_eq_self.mpr fun e _ => by simp [Wanted]
      refine iff_of_true ?_ (fun h => by cases h)
      rw [hall, hall, newest_iff hlog]
      exact lastN_of_le ((length_lastN _ _).trans_le (min_le_left _ _))
  | true =>
      rw [newest_filter_lastN_iff hlog]
      have hcount : (log.events.countP fun e => decide (Wanted true e) &&
          decide (log.events.countP (e.createdAt < ·.createdAt) < limit * 4)) =
          log.events.countP fun e => Wanted true e ∧ log.newer e < limit * 4 :=
        List.countP_congr fun e _ => by
          rw [Bool.and_eq_true, decide_eq_true_iff, decide_eq_true_iff, decide_eq_true_iff]
          rfl
      show _ ∨ limit ≤ List.countP (fun e => decide (Wanted true e) && decide (_ < limit * 4)) _ ↔ _
      rw [hcount]
      constructor
      · rintro (hall | henough) -
        · exact .inl fun e he hw => hall e he (decide_eq_true hw)
        · exact .inr henough
      · intro hreached
        rcases hreached rfl with hall | henough
        · exact .inl fun e he hw => hall e he (of_decide_eq_true hw)
        · exact .inr henough

end

/-- **The chronicle shows the newest events exactly if they are among those it fetches**: the oldest `limit` of a
family (`4 * limit` with `life_only`), the newest of the city. -/
theorem chronicle_newest_iff {log : Log} {limit : ℕ} {familyId : Option ℕ}
    (hlog : (log.events.map (·.createdAt)).Nodup) (hlimit : 1 ≤ limit) (hfamily : ∀ f ∈ familyId, f ∈ log.families)
    (lifeOnly : Bool) : log.ShowsNewest limit lifeOnly familyId ↔ log.Reached limit lifeOnly familyId := by
  cases familyId with
  | none => exact showsNewest_city_iff hlog
  | some f => exact showsNewest_family_iff hlog hlimit (hfamily f rfl)

/-- A family that was founded, and whose first member grew older twice. -/
def threeEvents : Log where
  families := [1]
  events := [⟨⟨1, some 1, none, "family.created", "", 10⟩, none⟩, ⟨⟨2, some 1, none, "life.aged", "", 20⟩, some 0⟩,
    ⟨⟨3, some 1, none, "life.aged", "", 30⟩, some 0⟩]

/-- A limit of three shows all of them. -/
theorem threeEvents_shown : threeEvents.ShowsNewest 3 false (some 1) :=
  (chronicle_newest_iff (by decide) (by decide) (by decide) false).mpr (by decide)

/-- **With a limit of one the family's chronicle shows its foundation**, and not what happened last. -/
theorem chronicle_not_newest : ¬ ∀ (log : Log) (limit : ℕ) (lifeOnly : Bool) (familyId : Option ℕ),
    (log.events.map (·.createdAt)).Nodup → 1 ≤ limit → (∀ f ∈ familyId, f ∈ log.families) →
      log.ShowsNewest limit lifeOnly familyId := by
  intro hall
  obtain ⟨c, hc, hnewest⟩ := hall threeEvents 1 false (some 1) (by decide) (by decide) (by decide)
  obtain rfl := Except.ok.inj hc
  have hlast : (30 : ℕ) < 10 := hnewest.newer ⟨⟨1, some 1, none, "family.created", "", 10⟩, none⟩ (by decide)
    ⟨⟨3, some 1, none, "life.aged", "", 30⟩, some 0⟩ (by decide) (by decide)
  exact absurd hlast (by decide)

end Persola.City.Timeline
