import Persola.City.Worker

/-!
# `City.WorkItems` — where every work item is, and what it looks like there

An item is with an `enqueue` that has not put it yet, in the queue, with one worker, or done: `Placed`
counts the places of an item (`copies`), one until it is done and none afterwards, and says what the item
carries in each of them. `Counted` are the books that rest on it: the two counters, the items in flight and
the batches that were started.
-/

namespace Persola.City.Worker

open Runs

/-! ## Items in their places -/

/-- An item nobody has taken. -/
def CityWorkItem.Fresh (item : CityWorkItem) : Prop :=
  item.status = .queued ∧ item.result = none ∧ item.error = none ∧ item.done = false

/-- An item whose batch has returned, with a result, or has failed, with an error. -/
def CityWorkItem.Finished (item : CityWorkItem) : Prop :=
  item.status = .completed ∧ item.result.isSome ∧ item.error = none ∨
    item.status = .failed ∧ item.result = none ∧ item.error.isSome

/-- What the item of a worker looks like. -/
def Stage.Fits : Stage → CityWorkItem → Prop
  | .acquiring _ _, item | .executing _ _, item =>
      item.status = .running ∧ item.result = none ∧ item.error = none
  | .closing _ _, item => item.status = .completed ∧ item.result.isSome ∧ item.error = none
  | .atGet, _ | .exited, _ => True

/-- How often item `i` is with an `enqueue`, in the queue and with a worker. -/
def CityWorkerPool.copies (s : CityWorkerPool) (i : ℕ) : ℕ :=
  s.calls.count (.enqueuing i) + s.queue.count (some i) + s.tasks.countP (fun stage => stage.item? = some i)

/-- Item `i` waits for a worker. -/
def CityWorkerPool.Waits (s : CityWorkerPool) (i : ℕ) : Prop :=
  .enqueuing i ∈ s.calls ∨ some i ∈ s.queue

/-- One if there is an item `i` and it meets `p`. -/
def mark (p : CityWorkItem → Bool) (items : List CityWorkItem) (i : ℕ) : ℕ :=
  if (items[i]?).any p then 1 else 0

/-- Every item has one place until it is done, and looks as it should there. -/
structure CityWorkerPool.Placed (s : CityWorkerPool) : Prop where
  one : ∀ i, s.copies i = mark (fun item => !item.done) s.items i
  fresh : ∀ i item, s.items[i]? = some item → s.Waits i → item.Fresh
  fits : ∀ stage ∈ s.tasks, ∀ i item, stage.item? = some i → s.items[i]? = some item → stage.Fits item
  finished : ∀ item ∈ s.items, item.done = true → item.Finished

section
variable {p : CityWorkItem → Bool} {items : List CityWorkItem} {item item' : CityWorkItem} {i j : ℕ}

theorem mark_of_none (hi : items[i]? = none) : mark p items i = 0 := by
  simp [mark, hi]

theorem mark_of_some (hi : items[i]? = some item) : mark p items i = if p item then 1 else 0 := by
  simp [mark, hi]

theorem mark_set_self (hi : items[i]? = some item) :
    mark p (items.set i item') i = if p item' then 1 else 0 :=
  mark_of_some (List.getElem?_set_self (List.getElem?_eq_some_iff.mp hi).1)

theorem mark_set_ne (hij : i ≠ j) : mark p (items.set i item') j = mark p items j := by
  unfold mark
  rw [List.getElem?_set_ne hij]

theorem mark_append :
    mark p (items ++ [item]) j = mark p items j + if j = items.length ∧ p item then 1 else 0 := by
  rcases Nat.lt_trichotomy j items.length with hj | rfl | hj
  · unfold mark
    rw [List.getElem?_append_left hj, if_neg (c := j = _ ∧ _) fun h => hj.ne h.1, Nat.add_zero]
  · rw [mark_of_some (List.getElem?_concat_length ..), mark_of_none (List.getElem?_eq_none le_rfl)]
    simp
  · rw [mark_of_none (by simp; omega), mark_of_none (List.getElem?_eq_none hj.le),
      if_neg fun h => hj.ne' h.1]

end

section
variable {cfg : PoolConfig} {s t : CityWorkerPool} {w : ℕ} {stage stage' : Stage}
  {item item' : CityWorkItem} {i j : ℕ}

/-! ## What the places of an item tell -/

theorem placed_init : (CityWorkerPool.new cfg).Placed where
  one _ := rfl
  fresh _ _ hi _ := by simp [CityWorkerPool.new] at hi
  fits _ hstage := by simp [CityWorkerPool.new] at hstage
  finished _ hitem := by simp [CityWorkerPool.new] at hitem

/-- What has a place is an item that is not done. -/
theorem CityWorkerPool.Placed.item_of_copies (hs : s.Placed) (hi : 0 < s.copies i) :
    ∃ item, s.items[i]? = some item ∧ item.done = false := by
  rw [hs.one] at hi
  cases hitem : s.items[i]? with
  | none => rw [mark_of_none hitem] at hi; omega
  | some item =>
      refine ⟨item, rfl, ?_⟩
      cases hd : item.done with
      | false => rfl
      | true =>
          rw [mark_of_some hitem, hd] at hi
          exact absurd hi (Nat.lt_irrefl 0)

theorem copies_pos_of_held (hw : stage ∈ s.tasks) (hi : stage.item? = some i) : 0 < s.copies i := by
  have htask : 0 < s.tasks.countP (fun stage => stage.item? = some i) :=
    List.countP_pos_iff.mpr ⟨stage, hw, decide_eq_true hi⟩
  unfold CityWorkerPool.copies
  omega

/-- What the item of a worker looks like. -/
theorem CityWorkerPool.Placed.held_item (hs : s.Placed) (hw : s.tasks[w]? = some stage)
    (hst : stage.item? = some i) (hi : s.items[i]? = some item) : stage.Fits item ∧ item.done = false := by
  obtain ⟨item₁, hi₁, hd⟩ := hs.item_of_copies (copies_pos_of_held (List.mem_of_getElem? hw) hst)
  obtain rfl := Option.some.inj (hi.symm.trans hi₁)
  exact ⟨hs.fits stage (List.mem_of_getElem? hw) i item hst hi, hd⟩

theorem copies_pos_of_waits (hi : s.Waits i) : 0 < s.copies i := by
  unfold CityWorkerPool.copies
  rcases hi with hcall | hq
  · have := List.count_pos_iff.mpr hcall
    omega
  · have := List.count_pos_iff.mpr hq
    omega

theorem CityWorkerPool.Placed.copies_le (hs : s.Placed) (i : ℕ) : s.copies i ≤ 1 := by
  rw [hs.one]
  unfold mark
  split
  · exact le_rfl
  · exact Nat.zero_le _

/-- **One worker, one item**: what a worker holds does not wait and no other worker holds it. -/
theorem CityWorkerPool.Placed.held_once (hs : s.Placed) (stage' : Stage)
    (hw : s.tasks[w]? = some stage) (hi : stage.item? = some i) :
    ¬ s.Waits i ∧ ∀ stage₁ ∈ s.tasks.set w stage', stage₁ = stage' ∨ stage₁ ∈ s.tasks ∧ stage₁.item? ≠ some i := by
  have hle := hs.copies_le i
  have hpos : 0 < s.tasks.countP (fun stage => stage.item? = some i) :=
    List.countP_pos_iff.mpr ⟨stage, List.mem_of_getElem? hw, decide_eq_true hi⟩
  unfold CityWorkerPool.copies at hle
  refine ⟨?_, fun stage₁ hstage₁ => ?_⟩
  · rintro (hcall | hq)
    · have := List.count_pos_iff.mpr hcall
      omega
    · have := List.count_pos_iff.mpr hq
      omega
  · have hone : s.tasks.countP (fun stage => stage.item? = some i) ≤ 1 := by omega
    exact (Pool.others_of_countP_le_one hone hw (decide_eq_true hi) hstage₁).imp id
      fun ⟨hmem, hne⟩ => ⟨hmem, of_decide_eq_false hne⟩

/-- **One place in the queue**: the item at its head is nowhere else. -/
theorem CityWorkerPool.Placed.head_once (hs : s.Placed) {rest : List (Option ℕ)} (hq : s.queue = some i :: rest) :
    .enqueuing i ∉ s.calls ∧ some i ∉ rest ∧ ∀ stage ∈ s.tasks, stage.item? ≠ some i := by
  have hle := hs.copies_le i
  unfold CityWorkerPool.copies at hle
  rw [hq, List.count_cons_self] at hle
  refine ⟨fun hcall => ?_, fun hmem => ?_, fun stage hstage heq => ?_⟩
  · have := List.count_pos_iff.mpr hcall
    omega
  · have := List.count_pos_iff.mpr hmem
    omega
  · have : 0 < s.tasks.countP (fun stage => stage.item? = some i) :=
      List.countP_pos_iff.mpr ⟨stage, hstage, decide_eq_true heq⟩
    omega

/-- Every item waits, is with a worker, or is done. -/
theorem CityWorkerPool.Placed.cases (hs : s.Placed) (hi : s.items[i]? = some item) :
    s.Waits i ∧ item.Fresh ∨ (∃ stage ∈ s.tasks, stage.item? = some i ∧ stage.Fits item ∧ item.done = false) ∨
      item.done = true ∧ item.Finished := by
  cases hd : item.done with
  | true => exact .inr (.inr ⟨rfl, hs.finished item (List.mem_of_getElem? hi) hd⟩)
  | false =>
      have hone := hs.one i
      rw [mark_of_some hi, hd, if_pos (by rfl)] at hone
      unfold CityWorkerPool.copies at hone
      by_cases hwait : s.Waits i
      · exact .inl ⟨hwait, hs.fresh i item hi hwait⟩
      · have hcall : s.calls.count (.enqueuing i) = 0 := List.count_eq_zero.mpr fun h => hwait (.inl h)
        have hq : s.queue.count (some i) = 0 := List.count_eq_zero.mpr fun h => hwait (.inr h)
        obtain ⟨stage, hstage, heq⟩ :=
          List.countP_pos_iff.mp (show 0 < s.tasks.countP (fun stage => decide (stage.item? = some i)) by omega)
        have heq := of_decide_eq_true heq
        exact .inr (.inl ⟨stage, hstage, heq, hs.fits stage hstage i item heq hi, rfl⟩)

/-! ## What keeps the places -/

/-- Nothing happens to the items themselves, and no task takes one. -/
theorem CityWorkerPool.Placed.frame (hs : s.Placed) (hitems : t.items = s.items)
    (hcopies : ∀ i, t.copies i = s.copies i) (hwaits : ∀ i, t.Waits i → s.Waits i)
    (htasks : ∀ stage ∈ t.tasks, stage ∈ s.tasks ∨ stage.item? = none) : t.Placed where
  one i := by rw [hcopies, hitems, hs.one]
  fresh i item hi hw := hs.fresh i item (hitems ▸ hi) (hwaits i hw)
  fits stage hstage i item hheld hi := by
    rcases htasks stage hstage with hmem | hnone
    · exact hs.fits stage hmem i item hheld (hitems ▸ hi)
    · rw [hnone] at hheld
      cases hheld
  finished item hitem := hs.finished item (hitems ▸ hitem)

/-- A worker goes on with its item, or is through with it. -/
theorem CityWorkerPool.Placed.goes_on (hs : s.Placed) (hw : s.tasks[w]? = some stage)
    (hheld : stage.item? = some i) (hi : s.items[i]? = some item)
    (hcalls : t.calls = s.calls) (hqueue : t.queue = s.queue) (hitems : t.items = s.items.set i item')
    (htasks : t.tasks = s.tasks.set w stage')
    (h : stage'.item? = some i ∧ item'.done = false ∧ stage'.Fits item' ∨
      stage'.item? = none ∧ item'.done = true ∧ item'.Finished) : t.Placed := by
  have hdone : item.done = false := (hs.held_item hw hheld hi).2
  obtain ⟨hwait, hothers⟩ := hs.held_once stage' hw hheld
  have hset : ∀ j, (s.tasks.set w stage').countP (fun stage => decide (stage.item? = some j)) +
      (if i = j then 1 else 0) = s.tasks.countP (fun stage => decide (stage.item? = some j)) +
        (if stage'.item? = some j then 1 else 0) := by
    intro j
    have := Pool.countP_set (f := fun stage => decide (stage.item? = some j)) hw stage'
    simpa [hheld] using this
  refine ⟨fun j => ?_, fun j item₁ hj hwaits => ?_, fun stage₁ hstage₁ j item₁ hj hitem₁ => ?_,
    fun item₁ hitem₁ => ?_⟩
  · have hone := hs.one j
    have hsetj := hset j
    unfold CityWorkerPool.copies at hone ⊢
    rw [hcalls, hqueue, htasks, hitems]
    by_cases hij : i = j
    · subst hij
      rw [mark_of_some hi, hdone] at hone
      rw [mark_set_self hi]
      rcases h with ⟨hst, hd, -⟩ | ⟨hst, hd, -⟩
      · simp only [hst, hd, if_true, Bool.not_false] at hsetj hone ⊢
        omega
      · simp only [hst, hd, if_true, Bool.not_true, Bool.not_false, Bool.false_eq_true, if_false,
          reduceCtorEq] at hsetj hone ⊢
        omega
    · rw [mark_set_ne hij, ← hone]
      have hne : stage'.item? ≠ some j := by
        rcases h with ⟨hst, -, -⟩ | ⟨hst, -, -⟩
        · rw [hst]; exact fun heq => hij (Option.some.inj heq)
        · rw [hst]; nofun
      rw [if_neg hij, if_neg hne] at hsetj
      omega
  · have hwaits' : s.Waits j := by
      unfold CityWorkerPool.Waits at hwaits ⊢
      rwa [hcalls, hqueue] at hwaits
    have hij : i ≠ j := fun hij => hwait (hij ▸ hwaits')
    rw [hitems, List.getElem?_set_ne hij] at hj
    exact hs.fresh j item₁ hj hwaits'
  · rcases hothers stage₁ (htasks ▸ hstage₁) with rfl | ⟨hold, hne⟩
    · rcases h with ⟨hst, -, hfits⟩ | ⟨hst, -, -⟩
      · rw [hst] at hj
        obtain rfl := Option.some.inj hj
        rw [hitems, List.getElem?_set_self (List.getElem?_eq_some_iff.mp hi).1] at hitem₁
        exact Option.some.inj hitem₁ ▸ hfits
      · rw [hst] at hj
        cases hj
    · have hij : i ≠ j := fun hij => hne (hij ▸ hj)
      rw [hitems, List.getElem?_set_ne hij] at hitem₁
      exact hs.fits stage₁ hold j item₁ hj hitem₁
  · rw [hitems] at hitem₁
    intro hd
    rcases List.mem_or_eq_of_mem_set hitem₁ with hold | rfl
    · exact hs.finished item₁ hold hd
    · rcases h with ⟨-, hfalse, -⟩ | ⟨-, -, hfin⟩
      · rw [hfalse] at hd
        cases hd
      · exact hfin

/-! ## Every step keeps the places -/

theorem copies_start : (start cfg s).copies i = s.copies i := by
  unfold start CityWorkerPool.copies
  split
  · rfl
  · simp [List.countP_append, List.countP_replicate, Stage.item?]

theorem start_tasks (hstage : stage ∈ (start cfg s).tasks) : stage ∈ s.tasks ∨ stage = .atGet := by
  unfold start at hstage
  split at hstage
  · exact .inl hstage
  · rcases List.mem_append.mp hstage with hold | hnew
    · exact .inl hold
    · exact .inr (List.eq_of_mem_replicate hnew)

theorem start_same (cfg : PoolConfig) (s : CityWorkerPool) : (start cfg s).items = s.items ∧
    (start cfg s).calls = s.calls ∧ (start cfg s).queue = s.queue := by
  unfold start
  split
  · exact ⟨rfl, rfl, rfl⟩
  · exact ⟨rfl, rfl, rfl⟩

theorem placed_start (cfg : PoolConfig) (hs : s.Placed) : (start cfg s).Placed := by
  obtain ⟨hitems, hcalls, hqueue⟩ := start_same cfg s
  refine hs.frame hitems (fun i => copies_start) (fun i hi => ?_) fun stage hstage => ?_
  · unfold CityWorkerPool.Waits at hi ⊢
    rwa [hcalls, hqueue] at hi
  · rcases start_tasks hstage with hold | rfl
    · exact .inl hold
    · exact .inr rfl

/-- A registered item is with its `enqueue`. -/
theorem placed_enqueue (hs : s.Placed) {req : Scale.Request} : (enqueue cfg s req).Placed := by
  have hstart := placed_start cfg hs
  obtain ⟨hitems, hcalls, hqueue⟩ := start_same cfg s
  have hlen : ∀ j, s.items.length = j → (start cfg s).copies j = 0 := by
    rintro j rfl
    rw [copies_start, hs.one, mark_of_none (List.getElem?_eq_none le_rfl)]
  have hold : ∀ {j item}, (s.items ++ [({ req } : CityWorkItem)])[j]? = some item → s.items.length ≠ j →
      s.items[j]? = some item := by
    intro j item hj hne
    rcases Nat.lt_or_ge j s.items.length with hlt | hge
    · rwa [List.getElem?_append_left hlt] at hj
    · have hjlt := (List.getElem?_eq_some_iff.mp hj).1
      rw [List.length_append, List.length_singleton] at hjlt
      omega
  refine ⟨fun j => ?_, fun j item hj hwaits => ?_, fun stage hstage j item hheld hj => ?_, fun item hitem => ?_⟩
  · have hone := hstart.one j
    have hnew : [PoolCall.enqueuing (start cfg s).items.length].count (.enqueuing j) =
        if j = (start cfg s).items.length then 1 else 0 := by
      rw [List.count_singleton]
      by_cases hj : j = (start cfg s).items.length
      · simp [hj]
      · simp [hj, Ne.symm hj]
    show ((start cfg s).calls ++ [PoolCall.enqueuing (start cfg s).items.length]).count (.enqueuing j) +
      (start cfg s).queue.count (some j) + (start cfg s).tasks.countP _ =
        mark (fun item => !item.done) ((start cfg s).items ++ [({ req } : CityWorkItem)]) j
    rw [mark_append, List.count_append, hnew, ← hone]
    unfold CityWorkerPool.copies
    simp only [Bool.not_false, and_true]
    omega
  · have hj : (s.items ++ [({ req } : CityWorkItem)])[j]? = some item := by
      rw [← hitems]; exact hj
    by_cases hlast : s.items.length = j
    · subst hlast
      rw [List.getElem?_concat_length] at hj
      obtain rfl := Option.some.inj hj
      exact ⟨rfl, rfl, rfl, rfl⟩
    · refine hs.fresh j item (hold hj hlast) ?_
      rcases hwaits with hcall | hq
      · have hcall : PoolCall.enqueuing j ∈ s.calls ++ [.enqueuing s.items.length] := by
          rw [← hcalls]
          have hcall : PoolCall.enqueuing j ∈
              (start cfg s).calls ++ [.enqueuing (start cfg s).items.length] := hcall
          rwa [hitems] at hcall
        rcases List.mem_append.mp hcall with hcall | hnew
        · exact .inl hcall
        · exact absurd (PoolCall.enqueuing.inj (List.mem_singleton.mp hnew)).symm hlast
      · exact .inr (hqueue ▸ hq)
  · have hstage : stage ∈ (start cfg s).tasks := hstage
    have hpos := copies_pos_of_held hstage hheld
    have hlast : s.items.length ≠ j := fun h => by rw [hlen j h] at hpos; omega
    have hj : (s.items ++ [({ req } : CityWorkItem)])[j]? = some item := by
      rw [← hitems]; exact hj
    exact hstart.fits stage hstage j item hheld (hitems ▸ hold hj hlast)
  · have hitem : item ∈ s.items ++ [({ req } : CityWorkItem)] := by rw [← hitems]; exact hitem
    intro hd
    rcases List.mem_append.mp hitem with hitem | hitem
    · exact hs.finished item hitem hd
    · obtain rfl := List.mem_singleton.mp hitem
      cases hd

/-- The worker at the head of the queue takes the item there. -/
theorem placed_takes (hs : s.Placed) {rest : List (Option ℕ)} (hw : s.tasks[w]? = some .atGet)
    (hq : s.queue = some i :: rest) (hi : s.items[i]? = some item) {c : ℕ}
    (hcalls : t.calls = s.calls) (hqueue : t.queue = rest)
    (hitems : t.items = s.items.set i { item with status := .running })
    (htasks : t.tasks = s.tasks.set w (.acquiring i c)) : t.Placed := by
  have hwaits : s.Waits i := .inr (hq ▸ List.mem_cons_self)
  have hfresh := hs.fresh i item hi hwaits
  have hset : ∀ j, (s.tasks.set w (.acquiring i c)).countP (fun stage => decide (stage.item? = some j)) =
      s.tasks.countP (fun stage => decide (stage.item? = some j)) + if i = j then 1 else 0 := by
    intro j
    have := Pool.countP_set (f := fun stage => decide (stage.item? = some j)) hw (.acquiring i c)
    simpa [Stage.item?] using this
  have hcount : ∀ j, s.queue.count (some j) = rest.count (some j) + if i = j then 1 else 0 := by
    intro j
    rw [hq, List.count_cons]
    simp
  obtain ⟨hcall, hrest, hidle⟩ := hs.head_once hq
  refine ⟨fun j => ?_, fun j item₁ hj hwaits₁ => ?_, fun stage₁ hstage₁ j item₁ hj hitem₁ => ?_,
    fun item₁ hitem₁ => ?_⟩
  · have hone := hs.one j
    have hsetj := hset j
    have hcountj := hcount j
    have hundone : mark (fun item => !item.done) t.items j = mark (fun item => !item.done) s.items j := by
      rw [hitems]
      by_cases hij : i = j
      · subst hij
        rw [mark_set_self hi, mark_of_some hi]
      · rw [mark_set_ne hij]
    rw [hundone, ← hone]
    unfold CityWorkerPool.copies
    rw [hcalls, hqueue, htasks]
    omega
  · have hij : i ≠ j := by
      rintro rfl
      rcases hwaits₁ with hmem | hmem
      · exact hcall (hcalls ▸ hmem)
      · exact hrest (hqueue ▸ hmem)
    rw [hitems, List.getElem?_set_ne hij] at hj
    refine hs.fresh j item₁ hj ?_
    rcases hwaits₁ with hcall | hmem
    · exact .inl (hcalls ▸ hcall)
    · exact .inr (hq ▸ List.mem_cons_of_mem _ (hqueue ▸ hmem))
  · rw [htasks] at hstage₁
    rcases List.mem_or_eq_of_mem_set hstage₁ with hold | rfl
    · have hij : i ≠ j := fun hij => hidle stage₁ hold (hij ▸ hj)
      rw [hitems, List.getElem?_set_ne hij] at hitem₁
      exact hs.fits stage₁ hold j item₁ hj hitem₁
    · obtain rfl := Option.some.inj hj
      rw [hitems, List.getElem?_set_self (List.getElem?_eq_some_iff.mp hi).1] at hitem₁
      obtain rfl := Option.some.inj hitem₁
      exact ⟨rfl, hfresh.2.1, hfresh.2.2.1⟩
  · rw [hitems] at hitem₁
    intro hd
    rcases List.mem_or_eq_of_mem_set hitem₁ with hold | rfl
    · exact hs.finished item₁ hold hd
    · rw [show item.done = false from hfresh.2.2.2] at hd
      cases hd

theorem placed_works (hs : s.Placed) (h : Works cfg s w t) : t.Placed := by
  cases h with
  | @ends rest hw hq =>
      refine hs.frame rfl (fun i => ?_) (fun i hi => ?_) fun stage hstage => ?_
      · have hset := Pool.countP_set (f := fun stage => decide (stage.item? = some i)) hw .exited
        rw [if_neg (by simp [Stage.item?]), if_neg (by simp [Stage.item?])] at hset
        have hset := Nat.add_right_cancel hset
        unfold CityWorkerPool.copies
        rw [hq, List.count_cons_of_ne (by simp)]
        show s.calls.count _ + rest.count _ + (s.tasks.set w .exited).countP _ = _
        rw [hset]
      · rcases hi with hcall | hmem
        · exact .inl hcall
        · exact .inr (hq ▸ List.mem_cons_of_mem _ hmem)
      · rcases List.mem_or_eq_of_mem_set hstage with hold | rfl
        · exact .inl hold
        · exact .inr rfl
  | takes hw hq hi => exact placed_takes hs hw hq hi rfl rfl rfl rfl
  | @executes i c call hw =>
      obtain ⟨item, hi, -⟩ := hs.item_of_copies (copies_pos_of_held (List.mem_of_getElem? hw) rfl)
      obtain ⟨hfits, hd⟩ := hs.held_item hw rfl hi
      exact hs.goes_on hw rfl hi rfl rfl (Pool.set_self hi).symm rfl (.inl ⟨rfl, hd, hfits⟩)
  | @completes i c item result hw hi =>
      obtain ⟨hfits, hd⟩ := hs.held_item hw rfl hi
      exact hs.goes_on hw rfl hi rfl rfl rfl rfl (.inl ⟨rfl, hd, rfl, rfl, hfits.2.2⟩)
  | @fails i c item e gov hw hi =>
      obtain ⟨hfits, -⟩ := hs.held_item hw rfl hi
      exact hs.goes_on hw rfl hi rfl rfl rfl rfl (.inr ⟨rfl, rfl, .inr ⟨rfl, hfits.2.1, rfl⟩⟩)
  | @closes i c item gov hw hi =>
      obtain ⟨hfits, -⟩ := hs.held_item hw rfl hi
      exact hs.goes_on hw rfl hi rfl rfl rfl rfl (.inr ⟨rfl, rfl, .inl hfits⟩)

/-- The entry of a call that is replaced counts no more. -/
theorem count_calls_set {k : ℕ} {call : PoolCall} (hk : s.calls[k]? = some call) (call' x : PoolCall) :
    (s.calls.set k call').count x + (if call = x then 1 else 0) =
      s.calls.count x + if call' = x then 1 else 0 := by
  have := Pool.countP_set (f := fun y => y == x) hk call'
  simpa [List.count] using this

/-- No call but `enqueue` has an item. -/
theorem count_calls_set_ne {k : ℕ} {x y : PoolCall} (hk : s.calls[k]? = some x) (hx : x ≠ .enqueuing i)
    (hy : y ≠ .enqueuing i) : (s.calls.set k y).count (.enqueuing i) = s.calls.count (.enqueuing i) := by
  have hset := count_calls_set hk y (.enqueuing i)
  rwa [if_neg hx, if_neg hy] at hset

theorem mem_of_mem_calls_set {k : ℕ} {y : PoolCall} (hy : y ≠ .enqueuing i)
    (hi : .enqueuing i ∈ s.calls.set k y) : .enqueuing i ∈ s.calls := by
  rcases List.mem_or_eq_of_mem_set hi with hold | heq
  · exact hold
  · exact absurd heq.symm hy

theorem placed_resumes (hs : s.Placed) {k : ℕ} (h : Resumes cfg s k t) : t.Placed := by
  cases h with
  | @puts n hk =>
      refine hs.frame rfl (fun i => ?_) (fun i hi => ?_) fun stage hstage => .inl hstage
      · show (s.calls.set k (.putting (n + 1))).count (.enqueuing i) + (s.queue ++ [none]).count (some i) +
          s.tasks.countP _ = _
        rw [count_calls_set_ne hk (by nofun) (by nofun), List.count_append, List.count_singleton]
        rfl
      · rcases hi with hcall | hq
        · exact .inl (mem_of_mem_calls_set (y := .putting (n + 1)) nofun hcall)
        · rcases List.mem_append.mp hq with hq | hnew
          · exact .inr hq
          · cases List.mem_singleton.mp hnew
  | gathers hk =>
      refine hs.frame rfl (fun i => ?_) (fun i hi => ?_) fun stage hstage => .inl hstage
      · show (s.calls.set k (.gathering s.workers)).count (.enqueuing i) + s.queue.count _ + s.tasks.countP _ = _
        rw [count_calls_set_ne hk (by nofun) (by nofun)]
        rfl
      · exact hi.imp (mem_of_mem_calls_set (y := .gathering s.workers) nofun) id
  | stops hk =>
      refine hs.frame rfl (fun i => ?_) (fun i hi => ?_) fun stage hstage => .inl hstage
      · show (s.calls.set k .returned).count (.enqueuing i) + s.queue.count _ + s.tasks.countP _ = _
        rw [count_calls_set_ne hk (by nofun) (by nofun)]
        rfl
      · exact hi.imp (mem_of_mem_calls_set (y := .returned) nofun) id
  | @enqueues j hk =>
      refine hs.frame rfl (fun i => ?_) (fun i hi => ?_) fun stage hstage => .inl hstage
      · have hset := count_calls_set hk .returned (.enqueuing i)
        show (s.calls.set k .returned).count (.enqueuing i) + (s.queue ++ [some j]).count (some i) +
          s.tasks.countP _ = s.calls.count _ + s.queue.count _ + s.tasks.countP _
        rw [List.count_append, List.count_singleton]
        simp only [PoolCall.enqueuing.injEq, reduceCtorEq, if_false, Nat.add_zero, beq_iff_eq,
          Option.some.injEq] at hset ⊢
        omega
      · rcases hi with hcall | hq
        · exact .inl (mem_of_mem_calls_set (y := .returned) nofun hcall)
        · rcases List.mem_append.mp hq with hq | hnew
          · exact .inr hq
          · cases List.mem_singleton.mp hnew
            exact .inl (List.mem_of_getElem? hk)

/-- **Step lemma** of the places. -/
theorem placed_step {a : Action} (hs : s.Placed) (h : (system cfg).step s a = some t) : t.Placed := by
  cases a with
  | start => exact Option.some.inj h ▸ placed_start cfg hs
  | stop =>
      obtain rfl := Option.some.inj h
      unfold stop
      split
      · refine hs.frame rfl (fun i => ?_) (fun i hi => ?_) fun stage hstage => .inl hstage
        · unfold CityWorkerPool.copies
          have hnew : [PoolCall.putting 0].count (.enqueuing i) = 0 := List.count_eq_zero.mpr (by simp)
          rw [List.count_append, hnew]
          rfl
        · refine hi.imp (fun hcall => ?_) id
          rcases List.mem_append.mp hcall with hcall | hnew
          · exact hcall
          · cases List.mem_singleton.mp hnew
      · exact hs
  | enqueue req => exact Option.some.inj h ▸ placed_enqueue hs
  | resume k => exact placed_resumes hs (resumes_of_resume h)
  | worker w outcome => exact placed_works hs (works_of_work h)
  | governor a =>
      obtain ⟨-, h⟩ := Option.ite_none_right_eq_some.mp h
      obtain ⟨gov, -, rfl⟩ := Option.map_eq_some_iff.mp h
      exact hs.frame rfl (fun _ => rfl) (fun _ hi => hi) fun _ hstage => .inl hstage

theorem placed_of_reachable (h : (system cfg).Reachable s) : s.Placed := by
  refine h.invariant (I := CityWorkerPool.Placed) (fun s h₀ => ?_) fun _ _ _ hs _ hst => placed_step hs hst
  obtain rfl := h₀
  exact placed_init

end

/-! ## The books over the items -/

/-- A worker has taken the item and is not through with it. -/
def CityWorkItem.inFlight (item : CityWorkItem) : Bool := item.status ≠ .queued ∧ item.done = false

/-- The batch of the item is over. -/
def CityWorkItem.ended (item : CityWorkItem) : Bool := item.status = .completed ∨ item.status = .failed

/-- The worker awaits the batch of item `i`. -/
def Stage.runs (i : ℕ) : Stage → Bool
  | .executing j _ => j = i
  | _ => false

/-- The counters count the items of their status, `inFlight` counts the items in flight and the workers that
    have one, and a batch was started once for each item whose batch runs or is over. -/
structure CityWorkerPool.Counted (s : CityWorkerPool) : Prop where
  completed : s.completed = s.items.countP (fun item => item.status = .completed)
  failed : s.failed = s.items.countP (fun item => item.status = .failed)
  inFlight : s.inFlight = s.items.countP CityWorkItem.inFlight
  busy : s.inFlight = s.tasks.countP (fun stage => stage.item?.isSome)
  batches : ∀ i, s.executions.countP (fun run => run.1 = i) =
    s.tasks.countP (Stage.runs i) + mark CityWorkItem.ended s.items i

section
variable {cfg : PoolConfig} {s t : CityWorkerPool} {w : ℕ} {stage stage' : Stage}
  {item item' : CityWorkItem} {i j : ℕ}

theorem counted_init : (CityWorkerPool.new cfg).Counted :=
  ⟨rfl, rfl, rfl, rfl, fun _ => rfl⟩

/-- Counted items and tasks may be joined by such that count for nothing. -/
theorem CityWorkerPool.Counted.frame (hs : s.Counted) {items : List CityWorkItem} {tasks : List Stage}
    (hitems : t.items = s.items ++ items) (htasks : t.tasks = s.tasks ++ tasks)
    (hnew : ∀ item ∈ items, item.status = .queued) (hidle : ∀ stage ∈ tasks, stage.item? = none)
    (hcompleted : t.completed = s.completed) (hfailed : t.failed = s.failed)
    (hinFlight : t.inFlight = s.inFlight) (hexecutions : t.executions = s.executions) : t.Counted := by
  have hzero : ∀ p : CityWorkItem → Bool, (∀ item, item.status = .queued → p item = false) →
      items.countP p = 0 := by
    intro p hp
    exact List.countP_eq_zero.mpr fun item hitem => by simp [hp item (hnew item hitem)]
  have hzero' : ∀ p : Stage → Bool, (∀ stage : Stage, stage.item? = none → p stage = false) →
      tasks.countP p = 0 := by
    intro p hp
    exact List.countP_eq_zero.mpr fun stage hstage => by simp [hp stage (hidle stage hstage)]
  refine ⟨?_, ?_, ?_, ?_, fun j => ?_⟩
  · rw [hcompleted, hitems, List.countP_append, hzero _ fun item h => by simp [h], hs.completed, Nat.add_zero]
  · rw [hfailed, hitems, List.countP_append, hzero _ fun item h => by simp [h], hs.failed, Nat.add_zero]
  · rw [hinFlight, hitems, List.countP_append, hzero _ fun item h => by simp [CityWorkItem.inFlight, h],
      hs.inFlight, Nat.add_zero]
  · rw [hinFlight, htasks, List.countP_append, hzero' _ fun stage h => by simp [h], hs.busy, Nat.add_zero]
  · have hmark : mark CityWorkItem.ended (s.items ++ items) j = mark CityWorkItem.ended s.items j := by
      rcases Nat.lt_or_ge j s.items.length with hj | hj
      · unfold mark
        rw [List.getElem?_append_left hj]
      · have hbeyond : s.items[j]? = none := List.getElem?_eq_none hj
        rw [mark_of_none hbeyond]
        cases hnone : (s.items ++ items)[j]? with
        | none => exact mark_of_none hnone
        | some item =>
            rw [mark_of_some hnone]
            rw [List.getElem?_append_right hj] at hnone
            have hqueued := hnew item (List.mem_of_getElem? hnone)
            rw [if_neg (by simp [CityWorkItem.ended, hqueued])]
    have hruns : tasks.countP (Stage.runs j) = 0 :=
      hzero' _ fun stage h => by cases stage <;> first | rfl | cases h
    rw [hexecutions, htasks, hitems, List.countP_append, hruns, hmark, hs.batches, Nat.add_zero]

/-- A worker moves together with an item. -/
theorem CityWorkerPool.Counted.moves (hs : s.Counted) (hw : s.tasks[w]? = some stage)
    (hi : s.items[i]? = some item) (htasks : t.tasks = s.tasks.set w stage')
    (hitems : t.items = s.items.set i item')
    (hcompleted : t.completed + (if item.status = .completed then 1 else 0) =
      s.completed + if item'.status = .completed then 1 else 0)
    (hfailed : t.failed + (if item.status = .failed then 1 else 0) =
      s.failed + if item'.status = .failed then 1 else 0)
    (hinFlight : t.inFlight + (if item.inFlight then 1 else 0) = s.inFlight + if item'.inFlight then 1 else 0)
    (hbusy : (if stage.item?.isSome then 1 else 0) + (if item'.inFlight then 1 else 0) =
      (if stage'.item?.isSome then 1 else 0) + if item.inFlight then 1 else 0)
    (hbatches : ∀ j, t.executions.countP (fun run => run.1 = j) + (if stage.runs j then 1 else 0) +
        (if i = j ∧ item.ended then 1 else 0) =
      s.executions.countP (fun run => run.1 = j) + (if stage'.runs j then 1 else 0) +
        if i = j ∧ item'.ended then 1 else 0) : t.Counted := by
  have hset := fun p => Pool.countP_set (f := p) hi item'
  have hset' := fun p => Pool.countP_set (f := p) hw stage'
  refine ⟨?_, ?_, ?_, ?_, fun j => ?_⟩
  · have h := hset fun item => decide (item.status = .completed)
    simp only [decide_eq_true_eq, ← hs.completed] at h
    rw [hitems]
    omega
  · have h := hset fun item => decide (item.status = .failed)
    simp only [decide_eq_true_eq, ← hs.failed] at h
    rw [hitems]
    omega
  · have h := hset CityWorkItem.inFlight
    rw [← hs.inFlight] at h
    rw [hitems]
    omega
  · have h := hset' fun stage => stage.item?.isSome
    rw [← hs.busy] at h
    rw [htasks]
    omega
  · have h := hset' (Stage.runs j)
    have hj := hs.batches j
    have hall := hbatches j
    rw [htasks, hitems]
    by_cases hij : i = j
    · subst hij
      rw [mark_of_some hi] at hj
      rw [mark_set_self hi]
      simp only [true_and] at hall
      omega
    · rw [mark_set_ne hij]
      simp only [hij, false_and, if_false] at hall
      omega

theorem counted_works (hp : s.Placed) (hs : s.Counted) (h : Works cfg s w t) : t.Counted := by
  cases h with
  | @ends rest hw =>
      have hset := fun p => Pool.countP_set (f := p) hw .exited
      refine ⟨hs.completed, hs.failed, hs.inFlight, ?_, fun j => ?_⟩
      · exact hs.busy.trans (hset fun stage => stage.item?.isSome).symm
      · rw [hs.batches j]
        exact congrArg (· + _) (hset (Stage.runs j)).symm
  | @takes i rest item hw hq hi =>
      obtain ⟨hst, -, -, hd⟩ := hp.fresh i item hi (.inr (hq ▸ List.mem_cons_self))
      exact hs.moves hw hi rfl rfl (by simp [hst]) (by simp [hst]) (by simp [CityWorkItem.inFlight, hst, hd])
        (by simp [CityWorkItem.inFlight, Stage.item?, hst, hd])
        (by simp [CityWorkItem.ended, Stage.runs, hst])
  | @executes i c call hw =>
      obtain ⟨item, hi, -⟩ := hp.item_of_copies (copies_pos_of_held (List.mem_of_getElem? hw) rfl)
      refine hs.moves hw hi rfl (Pool.set_self hi).symm rfl rfl rfl rfl fun j => ?_
      show (s.executions ++ [(i, w)]).countP _ + _ + _ = _
      rw [List.countP_append, List.countP_singleton]
      simp only [Stage.runs, decide_eq_true_eq, Bool.false_eq_true, if_false, Nat.add_zero]
  | @completes i c item result hw hi =>
      obtain ⟨⟨hst, -, -⟩, hd⟩ := hp.held_item hw rfl hi
      exact hs.moves hw hi rfl rfl (by simp [hst]) (by simp [hst]) (by simp [CityWorkItem.inFlight, hst, hd])
        (by simp [CityWorkItem.inFlight, Stage.item?, hst, hd])
        (by simp [CityWorkItem.ended, Stage.runs, hst])
  | @fails i c item e gov hw hi =>
      obtain ⟨⟨hst, -, -⟩, hd⟩ := hp.held_item hw rfl hi
      have hpos : 0 < s.inFlight := by
        rw [hs.busy]
        exact List.countP_pos_iff.mpr ⟨_, List.mem_of_getElem? hw, rfl⟩
      exact hs.moves hw hi rfl rfl (by simp [hst]) (by simp [hst])
        (by simp [CityWorkItem.inFlight, hst, hd]; omega)
        (by simp [CityWorkItem.inFlight, Stage.item?, hst, hd])
        (by simp [CityWorkItem.ended, Stage.runs, hst])
  | @closes i c item gov hw hi =>
      obtain ⟨⟨hst, -, -⟩, hd⟩ := hp.held_item hw rfl hi
      have hpos : 0 < s.inFlight := by
        rw [hs.busy]
        exact List.countP_pos_iff.mpr ⟨_, List.mem_of_getElem? hw, rfl⟩
      exact hs.moves hw hi rfl rfl (by simp) (by simp [hst])
        (by simp [CityWorkItem.inFlight, hst, hd]; omega)
        (by simp [CityWorkItem.inFlight, Stage.item?, hst, hd])
        (by simp [CityWorkItem.ended, Stage.runs, hst])

/-- `start` adds workers that have no item. -/
theorem start_adds (cfg : PoolConfig) (s : CityWorkerPool) :
    ∃ tasks : List Stage, (start cfg s).tasks = s.tasks ++ tasks ∧ ∀ stage ∈ tasks, stage.item? = none := by
  unfold start
  split
  · exact ⟨[], (List.append_nil _).symm, nofun⟩
  · refine ⟨_, rfl, fun stage hstage => ?_⟩
    rw [List.eq_of_mem_replicate hstage]
    rfl

/-- `start` leaves the books alone. -/
theorem start_books (cfg : PoolConfig) (s : CityWorkerPool) : (start cfg s).completed = s.completed ∧
    (start cfg s).failed = s.failed ∧ (start cfg s).inFlight = s.inFlight ∧
    (start cfg s).executions = s.executions := by
  unfold start
  split
  · exact ⟨rfl, rfl, rfl, rfl⟩
  · exact ⟨rfl, rfl, rfl, rfl⟩

theorem counted_resumes (hs : s.Counted) {k : ℕ} (h : Resumes cfg s k t) : t.Counted := by
  cases h with
  | puts | gathers | stops | enqueues =>
      exact hs.frame (List.append_nil _).symm (List.append_nil _).symm nofun nofun rfl rfl rfl rfl

/-- **Step lemma** of the books. -/
theorem counted_step {a : Action} (hp : s.Placed) (hs : s.Counted) (h : (system cfg).step s a = some t) :
    t.Counted := by
  obtain ⟨tasks, htasks, hidle⟩ := start_adds cfg s
  obtain ⟨hcompleted, hfailed, hinFlight, hexecutions⟩ := start_books cfg s
  obtain ⟨hitems, -, -⟩ := start_same cfg s
  cases a with
  | start =>
      obtain rfl := Option.some.inj h
      exact hs.frame (hitems.trans (List.append_nil _).symm) htasks nofun hidle hcompleted hfailed hinFlight
        hexecutions
  | stop =>
      obtain rfl := Option.some.inj h
      unfold stop
      split
      · exact hs.frame (List.append_nil _).symm (List.append_nil _).symm nofun nofun rfl rfl rfl rfl
      · exact hs
  | enqueue req =>
      obtain rfl := Option.some.inj h
      refine hs.frame (congrArg (· ++ [({ req } : CityWorkItem)]) hitems) htasks ?_ hidle hcompleted hfailed
        hinFlight hexecutions
      intro item hitem
      rw [List.mem_singleton.mp hitem]
  | resume k => exact counted_resumes hs (resumes_of_resume h)
  | worker w outcome => exact counted_works hp hs (works_of_work h)
  | governor a =>
      obtain ⟨-, h⟩ := Option.ite_none_right_eq_some.mp h
      obtain ⟨gov, -, rfl⟩ := Option.map_eq_some_iff.mp h
      exact hs.frame (List.append_nil _).symm (List.append_nil _).symm nofun nofun rfl rfl rfl rfl

theorem counted_of_reachable (h : (system cfg).Reachable s) : s.Counted := by
  have hboth : s.Placed ∧ s.Counted := by
    refine h.invariant (I := fun s => s.Placed ∧ s.Counted) (fun s h₀ => ?_) fun s a t hs _ hst =>
      ⟨placed_step hs.1 hst, counted_step hs.1 hs.2 hst⟩
    obtain rfl := h₀
    exact ⟨placed_init, counted_init⟩
  exact hboth.2

/-! ## Every item moves on -/

/-- The moves of a status. -/
def WorkStatus.movesTo : WorkStatus → WorkStatus → Bool
  | .queued, .running | .running, .completed | .running, .failed => true
  | _, _ => false

/-- Item `i` keeps its status or makes one move; what is done stays as it is. -/
theorem status_works (hp : s.Placed) (h : Works cfg s w t) (hi : s.items[i]? = some item) :
    ∃ item', t.items[i]? = some item' ∧ item'.req = item.req ∧
      (item'.status = item.status ∨ item.status.movesTo item'.status = true) ∧
      (item.done = true → item' = item) := by
  have hkept : ∃ item', s.items[i]? = some item' ∧ item'.req = item.req ∧
      (item'.status = item.status ∨ item.status.movesTo item'.status = true) ∧
      (item.done = true → item' = item) := ⟨item, hi, rfl, .inl rfl, fun _ => rfl⟩
  -- only the item of the worker is written
  have hset : ∀ {j : ℕ} {item₁ item₂ : CityWorkItem}, s.items[j]? = some item₁ → item₂.req = item₁.req →
      (item₂.status = item₁.status ∨ item₁.status.movesTo item₂.status = true) → item₁.done = false →
      ∃ item', (s.items.set j item₂)[i]? = some item' ∧ item'.req = item.req ∧
        (item'.status = item.status ∨ item.status.movesTo item'.status = true) ∧
        (item.done = true → item' = item) := by
    intro j item₁ item₂ hj hreq hstatus hd
    by_cases hji : j = i
    · subst hji
      obtain rfl := Option.some.inj (hj.symm.trans hi)
      exact ⟨item₂, List.getElem?_set_self (List.getElem?_eq_some_iff.mp hj).1, hreq, hstatus,
        fun h => by rw [hd] at h; cases h⟩
    · rw [List.getElem?_set_ne hji]
      exact hkept
  cases h with
  | ends | executes => exact hkept
  | @takes j rest item₁ hw hq hj =>
      obtain ⟨hst, -, -, hd⟩ := hp.fresh j item₁ hj (.inr (hq ▸ List.mem_cons_self))
      refine hset hj rfl (.inr ?_) hd
      rw [hst]
      rfl
  | completes hw hj | fails hw hj =>
      obtain ⟨⟨hst, -, -⟩, hd⟩ := hp.held_item hw rfl hj
      refine hset hj rfl (.inr ?_) hd
      rw [hst]
      rfl
  | closes hw hj =>
      obtain ⟨-, hd⟩ := hp.held_item hw rfl hj
      exact hset hj rfl (.inl rfl) hd

/-- **What any step does to an item.** -/
theorem status_step {a : Action} (hp : s.Placed) (h : (system cfg).step s a = some t)
    (hi : s.items[i]? = some item) :
    ∃ item', t.items[i]? = some item' ∧ item'.req = item.req ∧
      (item'.status = item.status ∨ item.status.movesTo item'.status = true) ∧
      (item.done = true → item' = item) := by
  have hkept : ∀ u : CityWorkerPool, u.items[i]? = s.items[i]? → ∃ item', u.items[i]? = some item' ∧
      item'.req = item.req ∧ (item'.status = item.status ∨ item.status.movesTo item'.status = true) ∧
      (item.done = true → item' = item) :=
    fun u hu => ⟨item, hu.trans hi, rfl, .inl rfl, fun _ => rfl⟩
  obtain ⟨hitems, -, -⟩ := start_same cfg s
  cases a with
  | start => exact Option.some.inj h ▸ hkept _ (by rw [hitems])
  | stop =>
      obtain rfl := Option.some.inj h
      refine hkept _ ?_
      unfold stop
      split
      · rfl
      · rfl
  | enqueue req =>
      obtain rfl := Option.some.inj h
      refine hkept _ ?_
      show ((start cfg s).items ++ [_])[i]? = _
      rw [hitems, List.getElem?_append_left (List.getElem?_eq_some_iff.mp hi).1]
  | resume k =>
      refine hkept t ?_
      cases resumes_of_resume h with
      | puts | gathers | stops | enqueues => rfl
  | worker w outcome => exact status_works hp (works_of_work h) hi
  | governor a =>
      obtain ⟨-, h⟩ := Option.ite_none_right_eq_some.mp h
      obtain ⟨gov, -, rfl⟩ := Option.map_eq_some_iff.mp h
      exact hkept _ rfl

end

end Persola.City.Worker
