import Persola.Lib.Table
import Persola.City.Stream

/-!
# `City.Delivery` — which events the stream delivers

Keyset paging is complete for events that stay ahead of the cursor: what a poll returns is closed
downwards in the order of the stream, so after it no matching event is behind the cursor without having
been yielded, unless it was behind the cursor before. Only a commit can put one there.
-/

namespace Persola.City.Stream

open Runs

variable {f : Filter} {s t : State}

/-! ## The invariant -/

/-- Ids are unique; the stream has yielded committed matching events, each once; the cursor names a
    committed event, and it is the last of those yielded. -/
structure Inv (f : Filter) (s : State) : Prop where
  ids : (s.all.map CityEvent.id).Nodup
  yielded : ∀ e ∈ s.yielded, e ∈ s.committed ∧ f.Matches e
  nodup : s.yielded.Nodup
  anchored : ∀ e ∈ s.yielded, s.Behind e
  cursor : ∀ id ∈ s.cursor, ∃ a ∈ s.committed, a.id = id

/-- No matching event was left behind: those not after the cursor have been yielded. -/
def NoneMissed (f : Filter) (s : State) : Prop :=
  ∀ e ∈ s.committed, f.Matches e → s.Behind e → e ∈ s.yielded

/-- A commit makes matching events visible only after the cursor. -/
def CommitsAhead (f : Filter) (s : State) : Action → Prop
  | .commit tx => ∀ p ∈ s.pending, p.1 = tx → f.Matches p.2 → ¬ s.Behind p.2
  | _ => True

instance (s : State) (a : Action) : Decidable (CommitsAhead f s a) := by
  unfold CommitsAhead; split <;> infer_instance

theorem nodup_committed (h : (s.all.map CityEvent.id).Nodup) :
    (s.committed.map CityEvent.id).Nodup := by
  rw [State.all, List.map_append] at h
  exact h.of_append_left

/-- Equal keys mean equal ids, hence equal events. -/
theorem eq_of_key {a b : CityEvent} (h : (s.committed.map CityEvent.id).Nodup)
    (ha : a ∈ s.committed) (hb : b ∈ s.committed) (hk : a.key = b.key) : a = b := by
  have hid : a.id = b.id := congrArg (fun k => (ofLex k).2) hk
  exact List.inj_on_of_nodup_map h ha hb hid

/-- The anchor is the key of the event the cursor names. -/
theorem anchor_eq {a : CityEvent} (h : (s.committed.map CityEvent.id).Nodup)
    (ha : a ∈ s.committed) (hc : s.cursor = some a.id) : s.anchor = some a.key := by
  have hfind : s.committed.find? (fun e => decide (e.id = a.id)) = some a := Table.find?_key h ha
  rw [State.anchor, hc, Option.bind_some, hfind, Option.map_some]

theorem behind_iff {a e : CityEvent} (h : s.anchor = some a.key) : s.Behind e ↔ e.key ≤ a.key := by
  simp [State.Behind, h]

theorem mem_due {e : CityEvent} :
    e ∈ s.due f ↔ e ∈ s.committed ∧ f.Matches e ∧ ¬ s.Behind e := by
  simp [State.due]

theorem mem_listSince {e : CityEvent} {n : ℕ} (h : e ∈ listSince f s n) :
    e ∈ s.committed ∧ f.Matches e ∧ ¬ s.Behind e :=
  mem_due.mp (Select.mem_orderBy.mp (List.mem_of_mem_take h))

/-! ## A poll -/

theorem yield_nil : s.yield [] = s := by
  simp [State.yield]

/-- After a page that ends in `r`, the cursor is at `r`. -/
theorem anchor_yield {rows : List CityEvent} {r : CityEvent} (h : (s.committed.map CityEvent.id).Nodup)
    (hr : rows.getLast? = some r) (hmem : r ∈ s.committed) : (s.yield rows).anchor = some r.key := by
  refine anchor_eq (s := s.yield rows) h hmem ?_
  simp [State.yield, hr]

/-- What was behind the cursor stays behind it: a page lies after the cursor. -/
theorem Behind.yield {r e : CityEvent} (hr : ¬ s.Behind r) (h : s.Behind e) : e.key ≤ r.key := by
  obtain ⟨k, hk, hle⟩ := h
  have hlt : ¬ r.key ≤ k := fun hrk => hr ⟨k, hk, hrk⟩
  exact hle.trans (le_of_lt (not_le.mp hlt))

theorem nodup_listSince (h : (s.committed.map CityEvent.id).Nodup) (n : ℕ) :
    (listSince f s n).Nodup := by
  have hdue : (s.due f).Nodup := (List.Nodup.of_map _ h).filter _
  have hord : (Select.orderBy CityEvent.key (s.due f)).Nodup :=
    (Select.orderBy_perm _ _).nodup_iff.mpr hdue
  exact hord.sublist (List.take_sublist _ _)

/-- A page keeps the invariant, and it neither misses an event nor makes up for one missed. -/
theorem inv_yield (h : Inv f s) (n : ℕ) :
    Inv f (s.yield (listSince f s n)) ∧
      (NoneMissed f (s.yield (listSince f s n)) ↔ NoneMissed f s) := by
  have hcom := nodup_committed h.ids
  cases hlast : (listSince f s n).getLast? with
  | none =>
      rw [List.getLast?_eq_none_iff.mp hlast, yield_nil]
      exact ⟨h, Iff.rfl⟩
  | some r =>
      have hrmem : r ∈ listSince f s n := List.mem_of_getLast? hlast
      obtain ⟨hr, -, hrb⟩ := mem_listSince hrmem
      have hanchor := anchor_yield hcom hlast hr
      have hbehind : ∀ e, (s.yield (listSince f s n)).Behind e ↔ e.key ≤ r.key :=
        fun e => behind_iff hanchor
      refine ⟨⟨h.ids, ?_, ?_, ?_, ?_⟩, ?_⟩
      · intro e he
        rcases List.mem_append.mp he with he | he
        · exact h.yielded e he
        · exact ⟨(mem_listSince he).1, (mem_listSince he).2.1⟩
      · refine List.Nodup.append h.nodup (nodup_listSince hcom n) fun e he he' => ?_
        exact (mem_listSince he').2.2 (h.anchored e he)
      · intro e he
        rw [hbehind]
        rcases List.mem_append.mp he with he | he
        · exact Behind.yield hrb (h.anchored e he)
        · exact Select.le_getLast_take_orderBy hlast he
      · intro id hid
        have hrid : r.id = id := by simpa [State.yield, hlast] using hid
        exact ⟨r, hr, hrid⟩
      · constructor
        · intro hnone e he hm hb
          have hmem := hnone e he hm ((hbehind e).mpr (Behind.yield hrb hb))
          rcases List.mem_append.mp hmem with hmem | hmem
          · exact hmem
          · exact absurd hb (mem_listSince hmem).2.2
        · intro hnone e he hm hb
          rw [hbehind] at hb
          by_cases hold : s.Behind e
          · exact List.mem_append_left _ (hnone e he hm hold)
          · refine List.mem_append_right _ ?_
            -- due and not after the last row of the page: the page has it
            rcases hb.lt_or_eq with hlt | heq
            · exact Select.mem_take_orderBy_of_lt hrmem (mem_due.mpr ⟨he, hm, hold⟩) hlt
            · exact eq_of_key hcom he hr heq ▸ hrmem

theorem listEventsSince_eq_some {n : ℕ} {rows : List CityEvent}
    (h : listEventsSince f s n = some rows) : rows = listSince f s n := by
  unfold listEventsSince at h
  split at h
  · split at h
    · exact (Option.some.inj h).symm
    · cases h
  · cases h

/-- A page shorter than the limit holds everything that is due. -/
theorem mem_listSince_of_short {n : ℕ} (h : (listSince f s n).length < n) {e : CityEvent}
    (he : e ∈ s.due f) : e ∈ listSince f s n := by
  have hlen : (Select.orderBy CityEvent.key (s.due f)).length ≤ n := by
    rw [listSince, List.length_take] at h
    omega
  rw [listSince, List.take_of_length_le hlen]
  exact Select.mem_orderBy.mpr he

/-! ## A commit -/

/-- New events do not move the anchor. -/
theorem anchor_append (h : Inv f s) (es : List CityEvent) (pending : List (TxId × CityEvent)) :
    State.anchor { s with committed := s.committed ++ es, pending } = s.anchor := by
  simp only [State.anchor]
  cases hc : s.cursor with
  | none => rfl
  | some id =>
      obtain ⟨a, ha, rfl⟩ := h.cursor id hc
      rw [Option.bind_some, Option.bind_some, List.find?_append,
        Table.find?_key (nodup_committed h.ids) ha]
      rfl

/-- The state after the commit of a transaction. -/
def State.commit (s : State) (tx : TxId) : State :=
  { s with
    committed := s.committed ++ (s.pending.filter fun p => p.1 = tx).map Prod.snd
    pending := s.pending.filter fun p => p.1 ≠ tx }

theorem all_commit_perm (tx : TxId) : (s.commit tx).all.Perm s.all := by
  have hp : ((s.pending.filter fun p => p.1 = tx) ++ s.pending.filter fun p => p.1 ≠ tx).Perm
      s.pending := by
    simpa using List.filter_append_perm (fun p : TxId × CityEvent => decide (p.1 = tx)) s.pending
  have hmap := hp.map Prod.snd
  rw [List.map_append] at hmap
  rw [State.all, State.commit, List.append_assoc]
  exact hmap.append_left s.committed

theorem mem_pending {tx : TxId} {e : CityEvent}
    (h : e ∈ (s.pending.filter fun p => p.1 = tx).map Prod.snd) : (tx, e) ∈ s.pending := by
  obtain ⟨⟨tx', e'⟩, hp, rfl⟩ := List.mem_map.mp h
  obtain ⟨hmem, htx⟩ := List.mem_filter.mp hp
  obtain rfl : tx' = tx := of_decide_eq_true htx
  exact hmem

/-- Pending events are not committed. -/
theorem not_mem_committed (h : (s.all.map CityEvent.id).Nodup) {p : TxId × CityEvent}
    (hp : p ∈ s.pending) : p.2 ∉ s.committed := by
  intro hmem
  rw [State.all] at h
  have hdisj := (List.nodup_append.mp (List.Nodup.of_map _ h)).2.2
  exact hdisj _ hmem _ (List.mem_map.mpr ⟨p, hp, rfl⟩) rfl

/-- A commit keeps the invariant, and it misses no event exactly if its matching events are ahead of the
    cursor. -/
theorem inv_commit (h : Inv f s) (tx : TxId) :
    Inv f (s.commit tx) ∧
      (NoneMissed f (s.commit tx) ↔ NoneMissed f s ∧ CommitsAhead f s (.commit tx)) := by
  have hanchor : (s.commit tx).anchor = s.anchor := anchor_append h _ _
  have hbehind : ∀ e, (s.commit tx).Behind e ↔ s.Behind e := fun e => by
    simp only [State.Behind, hanchor]
  refine ⟨⟨?_, ?_, h.nodup, ?_, ?_⟩, ?_, ?_⟩
  · exact ((all_commit_perm tx).map CityEvent.id).nodup_iff.mpr h.ids
  · exact fun e he => ⟨List.mem_append_left _ (h.yielded e he).1, (h.yielded e he).2⟩
  · exact fun e he => (hbehind e).mpr (h.anchored e he)
  · intro id hid
    obtain ⟨a, ha, haid⟩ := h.cursor id hid
    exact ⟨a, List.mem_append_left _ ha, haid⟩
  · intro hnone
    refine ⟨fun e he hm hb => hnone e (List.mem_append_left _ he) hm ((hbehind e).mpr hb), ?_⟩
    intro p hp htx hm hb
    have hnew : p.2 ∈ (s.commit tx).committed :=
      List.mem_append_right _ (List.mem_map.mpr
        ⟨p, List.mem_filter.mpr ⟨hp, decide_eq_true htx⟩, rfl⟩)
    -- behind the cursor it would have to be on the stream already
    have hyield : p.2 ∈ s.yielded := hnone p.2 hnew hm ((hbehind p.2).mpr hb)
    exact not_mem_committed h.ids hp (h.yielded p.2 hyield).1
  · rintro ⟨hnone, hahead⟩ e he hm hb
    rw [hbehind] at hb
    rcases List.mem_append.mp he with he | he
    · exact hnone e he hm hb
    · exact absurd hb (hahead (tx, e) (mem_pending he) rfl hm)

/-! ## All steps -/

/-- Steps that leave the committed events and the stream alone. -/
theorem Inv.frame (h : Inv f s) (hids : (t.all.map CityEvent.id).Nodup)
    (hcom : t.committed = s.committed) (hcur : t.cursor = s.cursor) (hy : t.yielded = s.yielded) :
    Inv f t ∧ (NoneMissed f t ↔ NoneMissed f s) := by
  have hanchor : t.anchor = s.anchor := by rw [State.anchor, State.anchor, hcom, hcur]
  have hbehind : ∀ e, t.Behind e ↔ s.Behind e := fun e => by simp only [State.Behind, hanchor]
  refine ⟨⟨hids, ?_, hy ▸ h.nodup, ?_, ?_⟩, ?_⟩
  · rw [hy, hcom]; exact h.yielded
  · intro e he
    rw [hy] at he
    exact (hbehind e).mpr (h.anchored e he)
  · rw [hcur, hcom]; exact h.cursor
  · simp only [NoneMissed, hcom, hy, hbehind]

/-- **Step lemma**: every step keeps the invariant, and it keeps the stream without a missed event
    exactly if it does not commit a matching event behind the cursor. -/
theorem inv_step {a : Action} (h : Inv f s) (hstep : (system f).step s a = some t) :
    Inv f t ∧ (NoneMissed f t ↔ NoneMissed f s ∧ CommitsAhead f s a) := by
  cases a with
  | createFamily | createJob | advance =>
      have hframe := h.frame (t := t)
      cases hstep
      obtain ⟨hinv, hiff⟩ := hframe h.ids rfl rfl rfl
      exact ⟨hinv, hiff.trans (and_iff_left trivial).symm⟩
  | flush tx id familyId jobId eventType payload =>
      simp only [system, step] at hstep
      split at hstep
      · cases hstep
      · next hnew =>
          cases hstep
          have hids : ((State.all { s with pending := s.pending ++
              [(tx, ⟨id, familyId, jobId, eventType, payload, s.now⟩)] }).map CityEvent.id).Nodup := by
            rw [show List.map CityEvent.id _ = s.all.map CityEvent.id ++ [id] by simp [State.all]]
            exact h.ids.append (List.nodup_singleton id) (by simpa using hnew)
          obtain ⟨hinv, hiff⟩ := h.frame hids rfl rfl rfl
          exact ⟨hinv, hiff.trans (and_iff_left trivial).symm⟩
  | commit tx => cases hstep; exact inv_commit h tx
  | rollback tx =>
      cases hstep
      have hids : ((State.all { s with pending := s.pending.filter fun p => p.1 ≠ tx }).map
          CityEvent.id).Nodup := by
        refine h.ids.sublist (List.Sublist.map _ ?_)
        exact List.Sublist.append_left (List.filter_sublist.map _) _
      obtain ⟨hinv, hiff⟩ := h.frame hids rfl rfl rfl
      exact ⟨hinv, hiff.trans (and_iff_left trivial).symm⟩
  | poll =>
      cases hstep
      obtain ⟨hinv, hiff⟩ : Inv f (poll f s) ∧ (NoneMissed f (poll f s) ↔ NoneMissed f s) := by
        unfold poll
        split
        · exact ⟨h, Iff.rfl⟩
        · next rows hrows => exact listEventsSince_eq_some hrows ▸ inv_yield h pageSize
      exact ⟨hinv, hiff.trans (and_iff_left trivial).symm⟩

theorem inv_init (h : (system f).init s) : Inv f s ∧ NoneMissed f s := by
  obtain ⟨hids, hcur, hy⟩ := h
  have hanchor : s.anchor = none := by rw [State.anchor, hcur]; rfl
  refine ⟨⟨hids, ?_, ?_, ?_, ?_⟩, ?_⟩
  · rw [hy]; simp
  · rw [hy]; exact List.nodup_nil
  · rw [hy]; simp
  · rw [hcur]; simp
  · rintro e - - ⟨k, hk, -⟩
    rw [hanchor] at hk
    cases hk

/-! ## Whole runs -/

/-- After a short page the yielded events are the matching committed ones exactly when none was
    missed. -/
theorem Inv.exact_iff (h : Inv f s) {n : ℕ} (hshort : (listSince f s n).length < n) :
    (s.yield (listSince f s n)).yielded.Perm (s.committed.filter fun e => f.Matches e) ↔
      NoneMissed f s := by
  obtain ⟨hinv, hiff⟩ := inv_yield h n
  constructor
  · intro hperm
    rw [← hiff]
    exact fun e he hm _ => hperm.mem_iff.mpr (List.mem_filter.mpr ⟨he, decide_eq_true hm⟩)
  · intro hnone
    have hcom : s.committed.Nodup := List.Nodup.of_map _ (nodup_committed h.ids)
    refine (List.perm_ext_iff_of_nodup hinv.nodup (hcom.filter _)).mpr fun e => ⟨fun he => ?_, ?_⟩
    · obtain ⟨he, hm⟩ := hinv.yielded e he
      exact List.mem_filter.mpr ⟨he, decide_eq_true hm⟩
    · intro he
      obtain ⟨he, hm⟩ := List.mem_filter.mp he
      by_cases hb : s.Behind e
      · exact List.mem_append_left _ (hnone e he (of_decide_eq_true hm) hb)
      · exact List.mem_append_right _
          (mem_listSince_of_short hshort (mem_due.mpr ⟨he, of_decide_eq_true hm, hb⟩))

/-- **The stream is exact exactly when every commit is ahead of its cursor.** For every filter and every
    run of transactions and polls from a stream opened without a cursor: when the next poll returns fewer
    rows than its limit, the events yielded by then are the matching events committed before it, each
    once, if and only if every commit of the run made its matching events visible after the cursor the
    stream had at that time. -/
theorem stream_exact_iff {s₀ : State} (h₀ : (system f).init s₀) {acts : List Action}
    (h : (system f).exec s₀ acts = some s) {rows : List CityEvent}
    (hpoll : listEventsSince f s pageSize = some rows) (hshort : rows.length < pageSize) :
    (poll f s).yielded.Perm (s.committed.filter fun e => f.Matches e) ↔
      (system f).Meets (CommitsAhead f) s₀ acts := by
  obtain ⟨hinit, hnone⟩ := inv_init h₀
  have hinv : Inv f s :=
    (System.run_of_exec h).invariant (fun _ _ _ hI _ hst => (inv_step hI hst).1) hinit
  have hrows : rows = listSince f s pageSize := listEventsSince_eq_some hpoll
  have hyield : poll f s = s.yield (listSince f s pageSize) := by
    simp only [poll, hpoll, hrows]
  rw [hyield, hinv.exact_iff (hrows ▸ hshort),
    System.exec_iff (fun _ _ _ hI hst => inv_step hI hst) hinit h]
  exact and_iff_right hnone

/-! ## A commit out of order -/

/-- Everything that happens in the city. -/
def cityWide : Filter := ⟨none, none, [], true, by decide⟩

def emptyCity : State := ⟨[], [], [], [], 0, none, []⟩

theorem init_emptyCity : (system cityWide).init emptyCity := ⟨List.nodup_nil, rfl, rfl⟩

/-- Two transactions flush one event each; the later one commits first and the stream polls it. -/
def outOfOrder : List Action :=
  [.flush 0 7 none none "member.died" "{}", .advance 1, .flush 1 3 none none "city.pulse.started" "{}",
   .commit 1, .poll, .commit 0]

/-- The next poll is short, and the event of the first transaction has been lost. -/
theorem stream_loses_event :
    ∃ s, (system cityWide).Reachable s ∧ ∃ rows, listEventsSince cityWide s pageSize = some rows ∧
      rows.length < pageSize ∧
      ∃ e ∈ s.committed, cityWide.Matches e ∧ e ∉ (poll cityWide s).yielded := by
  have hex : (((system cityWide).exec emptyCity outOfOrder).any fun s =>
      (listEventsSince cityWide s pageSize).any fun rows => rows.length < pageSize &&
        s.committed.any fun e => cityWide.Matches e && e ∉ (poll cityWide s).yielded) = true := by
    decide +kernel
  obtain ⟨s, hrun, hs⟩ := System.exists_of_exec hex
  obtain ⟨rows, hrows, hp⟩ := (Option.any_eq_true ..).mp hs
  simp only [Bool.and_eq_true, decide_eq_true_eq, List.any_eq_true] at hp
  obtain ⟨hshort, e, he, hm, hlost⟩ := hp
  exact ⟨s, System.reachable_of_exec init_emptyCity hrun, rows, hrows, hshort,
    e, he, hm, hlost⟩

/-- The same two transactions, committed in the order of their events. -/
def inOrder : List Action :=
  [.flush 0 7 none none "member.died" "{}", .advance 1, .flush 1 3 none none "city.pulse.started" "{}",
   .commit 0, .poll, .commit 1]

theorem stream_exact_inOrder :
    ∃ s, (system cityWide).exec emptyCity inOrder = some s ∧
      (poll cityWide s).yielded.Perm (s.committed.filter fun e => cityWide.Matches e) := by
  have hex : (((system cityWide).exec emptyCity inOrder).any fun s =>
      (listEventsSince cityWide s pageSize).any fun rows => rows.length < pageSize) = true := by
    decide +kernel
  obtain ⟨s, hrun, hs⟩ := System.exists_of_exec hex
  obtain ⟨rows, hrows, hshort⟩ := (Option.any_eq_true ..).mp hs
  exact ⟨s, hrun, (stream_exact_iff init_emptyCity hrun hrows
    (of_decide_eq_true hshort)).mpr (by decide +kernel)⟩

end Persola.City.Stream
