import Persola.City.Scale

/-!
# `City.Worker` — the worker pool

`CityWorkerPool`: a bounded queue, worker loops that take work items from it and execute them under the
governor, and the calls `start`, `stop` and `enqueue`. Every await is a step of its own, also one that
returns at once. `start` has none, so it is one step.

Opening and closing a session, the metrics and the governor do not fail; a batch returns or raises as it
likes. Who else uses the governor is not restricted.
-/

namespace Persola.City.Worker

open Runs

/-! ## Work items -/

/-- `status` of a work item. -/
inductive WorkStatus
  | queued | running | completed | failed
deriving DecidableEq, Repr

/-- A `CityWorkItem`: what it asks the governor for, and what becomes of it. The result is which of its
    tool calls were ok. -/
structure CityWorkItem where
  req : Scale.Request
  result : Option (List Bool) := none
  error : Option String := none
  status : WorkStatus := .queued
  done : Bool := false
deriving DecidableEq, Repr

/-- `ScaleConfig` with the fields the pool reads. -/
structure PoolConfig extends Scale.ScaleConfig where
  workerCount : ℕ
  queueMaxsize : ℕ
  workers_pos : 1 ≤ workerCount
  queue_pos : 1 ≤ queueMaxsize

/-! ## The pool -/

/-- Where a worker loop stands, with its item and its call of the governor. -/
inductive Stage
  | atGet
  | acquiring (item call : ℕ)
  | executing (item call : ℕ)
  /-- The session is being closed after a batch that returned. -/
  | closing (item call : ℕ)
  | exited
deriving DecidableEq, Repr

/-- The item a worker has taken. -/
def Stage.item? : Stage → Option ℕ
  | .acquiring i _ | .executing i _ | .closing i _ => some i
  | .atGet | .exited => none

/-- The governor call of a worker. -/
def Stage.call? : Stage → Option ℕ
  | .acquiring _ c | .executing _ c | .closing _ c => some c
  | .atGet | .exited => none

/-- A call of the pool: `stop` at its next sentinel or waiting for the workers, or `enqueue` putting its
    item. -/
inductive PoolCall
  | putting (next : ℕ)
  | gathering (tasks : List ℕ)
  | enqueuing (item : ℕ)
  | returned
deriving DecidableEq, Repr

/-- The pool. Items and worker tasks are numbered in the order they are made; the queue holds items and
    sentinels. `owned` are the governor calls the workers made, `executions` the batches that were started,
    each with its worker. -/
structure CityWorkerPool where
  queue : List (Option ℕ)
  items : List CityWorkItem
  tasks : List Stage
  workers : List ℕ
  started : Bool
  completed : ℕ
  failed : ℕ
  inFlight : ℕ
  gov : Scale.State
  owned : List ℕ
  executions : List (ℕ × ℕ)
  calls : List PoolCall

/-- A new pool with a new governor. -/
def CityWorkerPool.new (cfg : PoolConfig) : CityWorkerPool where
  queue := []
  items := []
  tasks := []
  workers := []
  started := false
  completed := 0
  failed := 0
  inFlight := 0
  gov := ⟨Scale.Governor.new cfg.toScaleConfig, []⟩
  owned := []
  executions := []
  calls := []

/-! ## `start`, `stop` and `enqueue` -/

/-- `start`: nothing if it was called before. -/
def start (cfg : PoolConfig) (s : CityWorkerPool) : CityWorkerPool :=
  if s.started then s
  else
    { s with
      started := true
      tasks := s.tasks ++ List.replicate cfg.workerCount .atGet
      workers := s.workers ++ List.range' s.tasks.length cfg.workerCount }

/-- `stop` is called. -/
def stop (s : CityWorkerPool) : CityWorkerPool :=
  if s.started then { s with calls := s.calls ++ [.putting 0] } else s

/-- `enqueue` is called: it starts the pool and registers its item. -/
def enqueue (cfg : PoolConfig) (s : CityWorkerPool) (req : Scale.Request) : CityWorkerPool :=
  let s := start cfg s
  { s with items := s.items ++ [{ req }], calls := s.calls ++ [.enqueuing s.items.length] }

/-- `Queue.put`, once the queue is not full. -/
def CityWorkerPool.put (cfg : PoolConfig) (s : CityWorkerPool) (entry : Option ℕ) :
    Option CityWorkerPool :=
  if s.queue.length < cfg.queueMaxsize then some { s with queue := s.queue ++ [entry] } else none

/-- Call `k` of the pool goes on. -/
def resume (cfg : PoolConfig) (s : CityWorkerPool) (k : ℕ) : Option CityWorkerPool :=
  match s.calls[k]? with
  | some (.putting next) =>
      -- the loop runs over the live list of workers: it may have been cleared or refilled meanwhile
      if next < s.workers.length then
        (s.put cfg none).map fun s => { s with calls := s.calls.set k (.putting (next + 1)) }
      else some { s with calls := s.calls.set k (.gathering s.workers) }
  | some (.gathering tasks) =>
      if ∀ w ∈ tasks, s.tasks[w]? = some .exited then
        some { s with workers := [], started := false, calls := s.calls.set k .returned }
      else none
  | some (.enqueuing item) =>
      (s.put cfg (some item)).map fun s => { s with calls := s.calls.set k .returned }
  | some .returned | none => none

/-! ## `_worker_loop` -/

/-- The `finally` of a batch: the slots are released, the item is done. -/
def settle (cfg : PoolConfig) (s : CityWorkerPool) (w i c : ℕ) : Option CityWorkerPool := do
  let gov ← Scale.step cfg.toScaleConfig s.gov (.release c)
  let item ← s.items[i]?
  return { s with
    gov
    inFlight := s.inFlight - 1
    items := s.items.set i { item with done := true }
    tasks := s.tasks.set w .atGet }

/-- The worker goes on to its next await; `outcome` is how its batch ends, if that is what it awaits. -/
def work (cfg : PoolConfig) (s : CityWorkerPool) (w : ℕ) (outcome : Except String (List Bool)) :
    Option CityWorkerPool :=
  match s.tasks[w]? with
  | some .atGet =>
      match s.queue with
      | [] => none
      | none :: rest => some { s with queue := rest, tasks := s.tasks.set w .exited }
      | some i :: rest => do
          let item ← s.items[i]?
          let gov ← Scale.step cfg.toScaleConfig s.gov (.call item.req)
          return { s with
            queue := rest
            items := s.items.set i { item with status := .running }
            inFlight := s.inFlight + 1
            gov
            owned := s.gov.calls.length :: s.owned
            tasks := s.tasks.set w (.acquiring i s.gov.calls.length) }
  | some (.acquiring i c) => do
      let call ← s.gov.calls[c]?
      if call.stage = .admitted then
        some { s with executions := s.executions ++ [(i, w)], tasks := s.tasks.set w (.executing i c) }
      else none
  | some (.executing i c) => do
      let item ← s.items[i]?
      match outcome with
      | .ok result =>
          return { s with
            items := s.items.set i { item with result := some result, status := .completed }
            completed := s.completed + 1
            tasks := s.tasks.set w (.closing i c) }
      | .error e =>
          -- the session is closed before the handler runs, with nothing to see in between
          settle cfg { s with
            items := s.items.set i { item with error := some e, status := .failed }
            failed := s.failed + 1 } w i c
  | some (.closing i c) => settle cfg s w i c
  | some .exited | none => none

/-! ## The system -/

inductive Action
  | start
  | stop
  | enqueue (req : Scale.Request)
  | resume (k : ℕ)
  | worker (w : ℕ) (outcome : Except String (List Bool))
  /-- A step of the governor: of any call that proceeds, or of another user of it. -/
  | governor (a : Scale.Action)

/-- Others leave the calls of the workers alone; that these go on is up to the governor. -/
def CityWorkerPool.allows (s : CityWorkerPool) : Scale.Action → Bool
  | .call _ | .proceed _ => true
  | .interrupt c _ | .release c => c ∉ s.owned

def step (cfg : PoolConfig) (s : CityWorkerPool) : Action → Option CityWorkerPool
  | .start => some (start cfg s)
  | .stop => some (stop s)
  | .enqueue req => some (enqueue cfg s req)
  | .resume k => resume cfg s k
  | .worker w outcome => work cfg s w outcome
  | .governor a =>
      if s.allows a then
        (Scale.step cfg.toScaleConfig s.gov a).map fun gov => { s with gov }
      else none

/-- **The worker pool.** -/
def system (cfg : PoolConfig) : System CityWorkerPool Action where
  init s := s = .new cfg
  step := step cfg

/-! ## The steps of a call -/

/-- What call `k` of the pool may do from `s`, and the state it leaves. -/
inductive Resumes (cfg : PoolConfig) (s : CityWorkerPool) (k : ℕ) : CityWorkerPool → Prop
  | puts {n : ℕ} (hk : s.calls[k]? = some (.putting n)) (hn : n < s.workers.length)
      (hroom : s.queue.length < cfg.queueMaxsize) :
      Resumes cfg s k { s with queue := s.queue ++ [none], calls := s.calls.set k (.putting (n + 1)) }
  | gathers {n : ℕ} (hk : s.calls[k]? = some (.putting n)) (hn : s.workers.length ≤ n) :
      Resumes cfg s k { s with calls := s.calls.set k (.gathering s.workers) }
  | stops {ts : List ℕ} (hk : s.calls[k]? = some (.gathering ts))
      (hts : ∀ w ∈ ts, s.tasks[w]? = some .exited) :
      Resumes cfg s k { s with workers := [], started := false, calls := s.calls.set k .returned }
  | enqueues {i : ℕ} (hk : s.calls[k]? = some (.enqueuing i))
      (hroom : s.queue.length < cfg.queueMaxsize) :
      Resumes cfg s k { s with queue := s.queue ++ [some i], calls := s.calls.set k .returned }

/-- **Inversion** of a step of a call. -/
theorem resumes_of_resume {cfg : PoolConfig} {s t : CityWorkerPool} {k : ℕ}
    (h : resume cfg s k = some t) : Resumes cfg s k t := by
  unfold resume at h
  split at h
  · next n hk =>
      split at h
      · next hn =>
          obtain ⟨u, hu, rfl⟩ := Option.map_eq_some_iff.mp h
          obtain ⟨hroom, hu⟩ := Option.ite_none_right_eq_some.mp hu
          obtain rfl := Option.some.inj hu
          exact .puts hk hn hroom
      · next hn =>
          obtain rfl := Option.some.inj h
          exact .gathers hk (Nat.le_of_not_lt hn)
  · next ts hk =>
      obtain ⟨hts, h⟩ := Option.ite_none_right_eq_some.mp h
      obtain rfl := Option.some.inj h
      exact .stops hk hts
  · next i hk =>
      obtain ⟨u, hu, rfl⟩ := Option.map_eq_some_iff.mp h
      obtain ⟨hroom, hu⟩ := Option.ite_none_right_eq_some.mp hu
      obtain rfl := Option.some.inj hu
      exact .enqueues hk hroom
  · cases h
  · cases h

/-! ## The steps of a worker -/

/-- What worker `w` may do from `s`, and the state it leaves. -/
inductive Works (cfg : PoolConfig) (s : CityWorkerPool) (w : ℕ) : CityWorkerPool → Prop
  | ends {rest : List (Option ℕ)} (hw : s.tasks[w]? = some .atGet) (hq : s.queue = none :: rest) :
      Works cfg s w { s with queue := rest, tasks := s.tasks.set w .exited }
  | takes {i : ℕ} {rest : List (Option ℕ)} {item : CityWorkItem} (hw : s.tasks[w]? = some .atGet)
      (hq : s.queue = some i :: rest) (hi : s.items[i]? = some item) :
      Works cfg s w { s with
        queue := rest
        items := s.items.set i { item with status := .running }
        inFlight := s.inFlight + 1
        gov := { s.gov with calls := s.gov.calls ++ [⟨item.req, .atFamilySem⟩] }
        owned := s.gov.calls.length :: s.owned
        tasks := s.tasks.set w (.acquiring i s.gov.calls.length) }
  | executes {i c : ℕ} {call : Scale.Call} (hw : s.tasks[w]? = some (.acquiring i c))
      (hc : s.gov.calls[c]? = some call) (hcall : call.stage = .admitted) :
      Works cfg s w { s with
        executions := s.executions ++ [(i, w)]
        tasks := s.tasks.set w (.executing i c) }
  | completes {i c : ℕ} {item : CityWorkItem} {result : List Bool}
      (hw : s.tasks[w]? = some (.executing i c)) (hi : s.items[i]? = some item) :
      Works cfg s w { s with
        items := s.items.set i { item with result := some result, status := .completed }
        completed := s.completed + 1
        tasks := s.tasks.set w (.closing i c) }
  | fails {i c : ℕ} {item : CityWorkItem} {e : String} {gov : Scale.State}
      (hw : s.tasks[w]? = some (.executing i c)) (hi : s.items[i]? = some item)
      (hgov : Scale.step cfg.toScaleConfig s.gov (.release c) = some gov) :
      Works cfg s w { s with
        items := s.items.set i { item with error := some e, status := .failed, done := true }
        failed := s.failed + 1
        inFlight := s.inFlight - 1
        gov
        tasks := s.tasks.set w .atGet }
  | closes {i c : ℕ} {item : CityWorkItem} {gov : Scale.State}
      (hw : s.tasks[w]? = some (.closing i c)) (hi : s.items[i]? = some item)
      (hgov : Scale.step cfg.toScaleConfig s.gov (.release c) = some gov) :
      Works cfg s w { s with
        items := s.items.set i { item with done := true }
        inFlight := s.inFlight - 1
        gov
        tasks := s.tasks.set w .atGet }

/-- **Inversion** of a worker's step. -/
theorem works_of_work {cfg : PoolConfig} {s t : CityWorkerPool} {w : ℕ}
    {outcome : Except String (List Bool)} (h : work cfg s w outcome = some t) : Works cfg s w t := by
  unfold work at h
  split at h
  · next hw =>
      split at h
      · cases h
      · next rest hq =>
          obtain rfl := Option.some.inj h
          exact .ends hw hq
      · next i rest hq =>
          obtain ⟨item, hi, h⟩ := Option.bind_eq_some_iff.mp h
          obtain ⟨gov, hgov, h⟩ := Option.bind_eq_some_iff.mp h
          obtain rfl := Option.some.inj hgov
          obtain rfl := Option.some.inj h
          exact .takes hw hq hi
  · next i c hw =>
      obtain ⟨call, hc, h⟩ := Option.bind_eq_some_iff.mp h
      obtain ⟨hcall, h⟩ := Option.ite_none_right_eq_some.mp h
      obtain rfl := Option.some.inj h
      exact .executes hw hc hcall
  · next i c hw =>
      obtain ⟨item, hi, h⟩ := Option.bind_eq_some_iff.mp h
      split at h
      · obtain rfl := Option.some.inj h
        exact .completes hw hi
      · obtain ⟨gov, hgov, h⟩ := Option.bind_eq_some_iff.mp h
        obtain ⟨item', hi', h⟩ := Option.bind_eq_some_iff.mp h
        obtain rfl := Option.some.inj h
        -- the item is written twice, the second time as it was left the first time
        rw [List.getElem?_set_self (List.getElem?_eq_some_iff.mp hi).1] at hi'
        obtain rfl := Option.some.inj hi'
        rw [List.set_set]
        exact @Works.fails _ _ _ _ _ item _ _ hw hi hgov
  · next i c hw =>
      obtain ⟨gov, hgov, h⟩ := Option.bind_eq_some_iff.mp h
      obtain ⟨item, hi, h⟩ := Option.bind_eq_some_iff.mp h
      obtain rfl := Option.some.inj h
      exact .closes hw hi hgov
  · cases h
  · cases h

end Persola.City.Worker
