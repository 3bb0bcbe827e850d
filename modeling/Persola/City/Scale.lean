import Persola.Lib.Runs
import Persola.Lib.Pool
import Persola.Lib.Py
import Mathlib.Logic.Function.Basic
import Mathlib.Data.List.Count

/-!
# `City.Scale` — the concurrency governor, with interruption at every await

`ConcurrencyGovernor.acquire` looks its four semaphores up and then takes them one after the other:
global, family, district and, when a job id is given, job. Each `await` is a stage of the call, and an
exception can arrive at each of them. The handlers are `except Exception`: they unwind for an
`Exception`, but a cancellation (`CancelledError`, a `BaseException`) passes them by.

A semaphore is its number of free slots; a call waits at a semaphore until it has one, in any order. In `system` every
await suspends. Awaiting a semaphore with a free slot does not, so in `unbroken` a call that gets a slot runs on to the
next semaphore that has none.
-/

namespace Persola.City.Scale

open Runs

/-! ## Configuration and shards -/

/-- The caps of `ScaleConfig`, all at least one. -/
structure ScaleConfig where
  maxGlobalConcurrent : ℕ
  maxPerFamily : ℕ
  maxPerDistrict : ℕ
  maxPerJob : ℕ
  global_pos : 1 ≤ maxGlobalConcurrent
  family_pos : 1 ≤ maxPerFamily
  district_pos : 1 ≤ maxPerDistrict
  job_pos : 1 ≤ maxPerJob

/-- `DISTRICTS`. -/
def districts : List String := ["build", "viz", "research", "ops"]

/-- `s.lower().strip()`. The district names are ASCII and no other character lower-cases into one of
    their letters alone, so lower-casing ASCII letters decides membership. -/
def normalize (s : String) : String := Py.strip (String.ofList (s.toList.map Char.toLower))

/-- `shard_for_district`: an unknown or empty district counts as `build`. -/
def shardForDistrict (district : String) : String :=
  let d := normalize (if district = "" then "build" else district)
  "district:" ++ if d ∈ districts then d else "build"

/-! ## Semaphores -/

/-- The semaphores: one global, one for each family, district shard and job. -/
inductive Sem
  | global
  | family (id : String)
  | district (shard : String)
  | job (id : String)
deriving DecidableEq, Repr

/-- The cap a semaphore is made with. -/
def ScaleConfig.cap (cfg : ScaleConfig) : Sem → ℕ
  | .global => cfg.maxGlobalConcurrent
  | .family _ => cfg.maxPerFamily
  | .district _ => cfg.maxPerDistrict
  | .job _ => cfg.maxPerJob

theorem ScaleConfig.cap_pos (cfg : ScaleConfig) (sem : Sem) : 1 ≤ cfg.cap sem := by
  cases sem with
  | global => exact cfg.global_pos
  | family id => exact cfg.family_pos
  | district shard => exact cfg.district_pos
  | job id => exact cfg.job_pos

/-- The governor: the free slots of each semaphore made so far, and the activity counters. -/
structure Governor where
  value : Sem → Option ℕ
  activeGlobal : ℕ
  activeByFamily : String → Option ℕ
  activeByDistrict : String → Option ℕ
  activeByJob : String → Option ℕ

namespace Governor

/-- `__init__`: only the global semaphore exists. -/
def new (cfg : ScaleConfig) : Governor where
  value := Function.update (fun _ => none) .global (some cfg.maxGlobalConcurrent)
  activeGlobal := 0
  activeByFamily := fun _ => none
  activeByDistrict := fun _ => none
  activeByJob := fun _ => none

/-- `_family_sem`, `_district_sem` and `_job_sem`: make the semaphore on first use. -/
def ensure (cfg : ScaleConfig) (g : Governor) (sem : Sem) : Governor :=
  match g.value sem with
  | some _ => g
  | none => { g with value := Function.update g.value sem (some (cfg.cap sem)) }

/-- The awaited `Semaphore.acquire()` returns: a free slot is taken. -/
def take (g : Governor) (sem : Sem) : Option Governor :=
  match g.value sem with
  | some (v + 1) => some { g with value := Function.update g.value sem (some v) }
  | _ => none

/-- `Semaphore.release()`, on a semaphore that exists. -/
def give (g : Governor) (sem : Sem) : Governor :=
  { g with value := Function.update g.value sem ((g.value sem).map (· + 1)) }

/-- `d[k] = d.get(k, 0) + 1`. -/
def bump (d : String → Option ℕ) (k : String) : String → Option ℕ :=
  Function.update d k (some ((d k).getD 0 + 1))

/-- `if k in d: d[k] = max(0, d[k] - 1)`. -/
def drop (d : String → Option ℕ) (k : String) : String → Option ℕ :=
  Function.update d k ((d k).map (· - 1))

end Governor

/-! ## Calls of `acquire` -/

/-- The arguments of a call; an empty job id counts as none. -/
structure Request where
  family : String
  district : String
  job : Option String
deriving DecidableEq, Repr

/-- `job_id` where the code tests its truth. -/
def Request.jobKey (r : Request) : Option String := r.job.filter (· ≠ "")

/-- Where a call stands. `gone leaked`: `acquire` ended by raising and left the slots `leaked`
    taken. -/
inductive Stage
  | atFamilySem | atDistrictSem | atJobSem
  | atGlobal | atFamily | atDistrict | atJob
  | admitted
  | released
  | gone (leaked : List Sem)
deriving DecidableEq, Repr

structure Call where
  req : Request
  stage : Stage
deriving DecidableEq, Repr

/-- The slots a call holds while it waits further on or is admitted. -/
def Call.held (c : Call) : List Sem :=
  match c.stage with
  | .atFamily => [.global]
  | .atDistrict => [.global, .family c.req.family]
  | .atJob => [.global, .family c.req.family, .district (shardForDistrict c.req.district)]
  | .admitted =>
      [.global, .family c.req.family, .district (shardForDistrict c.req.district)] ++
        (c.req.jobKey.map Sem.job).toList
  | _ => []

/-- The slots a call that is over never gave back. -/
def Call.leaked (c : Call) : List Sem :=
  match c.stage with
  | .gone leaked => leaked
  | _ => []

/-- The end of `acquire`: the counters go up and the call is admitted. -/
def admitCall (g : Governor) (r : Request) : Governor × Stage :=
  ({ g with
      activeGlobal := g.activeGlobal + 1
      activeByFamily := Governor.bump g.activeByFamily r.family
      activeByDistrict := Governor.bump g.activeByDistrict (shardForDistrict r.district)
      activeByJob := match r.jobKey with
        | some j => Governor.bump g.activeByJob j
        | none => g.activeByJob },
   .admitted)

/-- `acquire`, from one await to the next. -/
def acquire (cfg : ScaleConfig) (g : Governor) (c : Call) : Option (Governor × Stage) :=
  match c.stage with
  | .atFamilySem => some (g.ensure cfg (.family c.req.family), .atDistrictSem)
  | .atDistrictSem =>
      some (g.ensure cfg (.district (shardForDistrict c.req.district)), .atJobSem)
  | .atJobSem =>
      match c.req.jobKey with
      | some j => some (g.ensure cfg (.job j), .atGlobal)
      | none => some (g, .atGlobal)
  | .atGlobal => (g.take .global).map fun g => (g, .atFamily)
  | .atFamily => (g.take (.family c.req.family)).map fun g => (g, .atDistrict)
  | .atDistrict =>
      (g.take (.district (shardForDistrict c.req.district))).map fun g =>
        match c.req.jobKey with
        | some _ => (g, .atJob)
        | none => admitCall g c.req
  | .atJob =>
      match c.req.jobKey with
      | some j => (g.take (.job j)).map fun g => admitCall g c.req
      | none => none
  | _ => none

/-- What can be raised at an await. -/
inductive Interrupt
  | exception
  | cancelled
deriving DecidableEq, Repr

/-- `except Exception`: does a handler run for this? -/
def Interrupt.handled : Interrupt → Bool
  | .exception => true
  | .cancelled => false

/-- The call is interrupted where it waits. The handler of a stage gives back, in reverse order, what
    the call holds there; without a handler running, those slots stay taken. -/
def interrupt (g : Governor) (c : Call) (e : Interrupt) : Option (Governor × Stage) :=
  match c.stage with
  -- outside every `try`, but nothing is held yet
  | .atFamilySem | .atDistrictSem | .atJobSem | .atGlobal => some (g, .gone [])
  | .atFamily =>
      if e.handled then some (g.give .global, .gone [])
      else some (g, .gone [.global])
  | .atDistrict =>
      if e.handled then some ((g.give (.family c.req.family)).give .global, .gone [])
      else some (g, .gone [.global, .family c.req.family])
  | .atJob =>
      let dist := Sem.district (shardForDistrict c.req.district)
      if e.handled then
        some (((g.give dist).give (.family c.req.family)).give .global, .gone [])
      else some (g, .gone [.global, .family c.req.family, dist])
  | _ => none

/-- `release`, with the arguments of the admitted call. -/
def release (g : Governor) (c : Call) : Option (Governor × Stage) :=
  match c.stage with
  | .admitted =>
      let dk := shardForDistrict c.req.district
      let g := match c.req.jobKey with
        | some j => { g.give (.job j) with activeByJob := Governor.drop g.activeByJob j }
        | none => g
      let g := ((g.give (.district dk)).give (.family c.req.family)).give .global
      some ({ g with
          activeGlobal := g.activeGlobal - 1
          activeByFamily := Governor.drop g.activeByFamily c.req.family
          activeByDistrict := Governor.drop g.activeByDistrict dk },
        .released)
  | _ => none

/-! ## Any number of calls, interleaved -/

structure State where
  gov : Governor
  calls : List Call

inductive Action
  | call (req : Request)
  | proceed (i : ℕ)
  | interrupt (i : ℕ) (e : Interrupt)
  | release (i : ℕ)
deriving DecidableEq, Repr

/-- Move call `i` by `f`. -/
def State.move (s : State) (i : ℕ) (f : Governor → Call → Option (Governor × Stage)) :
    Option State := do
  let c ← s.calls[i]?
  let (gov, stage) ← f s.gov c
  return ⟨gov, s.calls.set i { c with stage }⟩

def step (cfg : ScaleConfig) (s : State) : Action → Option State
  | .call req => some { s with calls := s.calls ++ [⟨req, .atFamilySem⟩] }
  | .proceed i => s.move i (acquire cfg)
  | .interrupt i e => s.move i fun g c => interrupt g c e
  | .release i => s.move i release

/-- A new governor and no call yet. -/
def system (cfg : ScaleConfig) : System State Action where
  init s := s = ⟨Governor.new cfg, []⟩
  step := step cfg

/-! ## Calls that suspend only where they have to -/

/-- Does the call hold the global slot without being admitted? -/
def Stage.parked : Stage → Bool
  | .atFamily | .atDistrict | .atJob => true
  | _ => false

/-- The call takes up to `n` more semaphores, as long as they have a free slot. -/
def State.runOn (cfg : ScaleConfig) (i : ℕ) : ℕ → State → State
  | 0, s => s
  | n + 1, s =>
      match s.calls[i]? with
      | some c =>
          if c.stage.parked then
            match step cfg s (.proceed i) with
            | some s' => State.runOn cfg i n s'
            | none => s
          else s
      | none => s

/-- A step, from one suspension to the next: after the global slot there are at most three semaphores. -/
def stepOn (cfg : ScaleConfig) (s : State) (a : Action) : Option State :=
  match a with
  | .proceed i => (step cfg s (.proceed i)).map (State.runOn cfg i 3)
  | a => step cfg s a

/-- The governor with calls that suspend only where they have to. -/
def unbroken (cfg : ScaleConfig) : System State Action where
  init s := s = ⟨Governor.new cfg, []⟩
  step := stepOn cfg

end Persola.City.Scale
