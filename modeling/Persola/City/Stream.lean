import Persola.Lib.Runs
import Persola.Lib.Select
import Mathlib.Data.Prod.Lex

/-!
# `City.Stream` — the live event stream, polling with a keyset cursor

`stream_city_events` polls `list_events_since`: matching events in the order of `(created_at, id)`, at
most 50 at a time, those after the last one it yielded. Events get their `created_at` when they are
flushed and become visible when their transaction commits, so a commit can put events *behind* the
cursor. Those are the events the stream misses: `stream_exact_iff`.
-/

namespace Persola.City.Stream

open Runs

abbrev Time := ℕ
abbrev EventId := ℕ
abbrev TxId := ℕ

/-- A row of `city_events`; ids are ordered the way the database orders UUIDs. -/
structure CityEvent where
  id : EventId
  familyId : Option ℕ
  jobId : Option ℕ
  eventType : String
  payload : String
  createdAt : Time
deriving DecidableEq, Repr

/-- The order of the stream: by creation, then by id. -/
def CityEvent.key (e : CityEvent) : ℕ ×ₗ ℕ := toLex (e.createdAt, e.id)

/-- The query parameters of the stream; without family or job it has to be city-wide. -/
structure Filter where
  familyId : Option ℕ
  jobId : Option ℕ
  types : List String
  cityWide : Bool
  inScope : familyId.isSome ∨ jobId.isSome ∨ cityWide = true

/-- The filters of `list_since` on family, job and type; an empty type list filters nothing. -/
def Filter.Matches (f : Filter) (e : CityEvent) : Prop :=
  (∀ id ∈ f.familyId, e.familyId = some id) ∧ (∀ id ∈ f.jobId, e.jobId = some id) ∧
    (f.types ≠ [] → e.eventType ∈ f.types)

instance (f : Filter) (e : CityEvent) : Decidable (f.Matches e) :=
  inferInstanceAs (Decidable (_ ∧ _ ∧ _))

/-- The database, the clock and the stream. An event flushed in a transaction is pending until the
    transaction ends. -/
structure State where
  families : List ℕ
  jobs : List ℕ
  committed : List CityEvent
  pending : List (TxId × CityEvent)
  now : Time
  cursor : Option EventId
  yielded : List CityEvent

/-- The key of the event the cursor names: `CityEventRepository.get`. -/
def State.anchor (s : State) : Option (ℕ ×ₗ ℕ) :=
  (s.cursor.bind fun id => s.committed.find? (·.id = id)).map CityEvent.key

/-- The event is not after the cursor. -/
def State.Behind (s : State) (e : CityEvent) : Prop := ∃ k ∈ s.anchor, e.key ≤ k

instance (s : State) (e : CityEvent) : Decidable (s.Behind e) :=
  inferInstanceAs (Decidable (∃ k ∈ s.anchor, e.key ≤ k))

/-- The committed events the stream has to show next. -/
def State.due (f : Filter) (s : State) : List CityEvent :=
  s.committed.filter fun e => f.Matches e ∧ ¬ s.Behind e

/-- `CityEventRepository.list_since`. -/
def listSince (f : Filter) (s : State) (limit : ℕ) : List CityEvent :=
  (Select.orderBy CityEvent.key (s.due f)).take limit

/-- `CityService.list_events_since`: `none` is its `ValueError` for an unknown family or job. -/
def listEventsSince (f : Filter) (s : State) (limit : ℕ) : Option (List CityEvent) :=
  -- the family is looked up first, then the job
  if ∀ id ∈ f.familyId, id ∈ s.families then
    if ∀ id ∈ f.jobId, id ∈ s.jobs then some (listSince f s limit) else none
  else none

/-- The page size of the stream. -/
def pageSize : ℕ := 50

/-- The rows of a poll are yielded one by one, and the cursor follows. -/
def State.yield (s : State) (rows : List CityEvent) : State :=
  { s with
    yielded := s.yielded ++ rows
    cursor := (rows.getLast?.map CityEvent.id).or s.cursor }

/-- A poll cycle of `event_generator`: an error is reported on the stream and changes nothing. -/
def poll (f : Filter) (s : State) : State :=
  match listEventsSince f s pageSize with
  | none => s
  | some rows => s.yield rows

inductive Action
  | createFamily (id : ℕ)
  | createJob (id : ℕ)
  | advance (elapsed : Time)
  | flush (tx : TxId) (id : EventId) (familyId jobId : Option ℕ) (eventType payload : String)
  | commit (tx : TxId)
  | rollback (tx : TxId)
  | poll
deriving DecidableEq, Repr

/-- Every event of the database, pending ones included. -/
def State.all (s : State) : List CityEvent := s.committed ++ s.pending.map Prod.snd

def step (f : Filter) (s : State) : Action → Option State
  | .createFamily id => some { s with families := s.families ++ [id] }
  | .createJob id => some { s with jobs := s.jobs ++ [id] }
  | .advance elapsed => some { s with now := s.now + elapsed }
  | .flush tx id familyId jobId eventType payload =>
      if id ∈ s.all.map CityEvent.id then none
      else some { s with
        -- dated now, though nobody sees it before the commit
        pending := s.pending ++ [(tx, ⟨id, familyId, jobId, eventType, payload, s.now⟩)] }
  | .commit tx =>
      some { s with
        committed := s.committed ++ (s.pending.filter fun p => p.1 = tx).map Prod.snd
        pending := s.pending.filter fun p => p.1 ≠ tx }
  | .rollback tx => some { s with pending := s.pending.filter fun p => p.1 ≠ tx }
  | .poll => some (poll f s)

/-- Any database and a stream opened without a cursor. -/
def system (f : Filter) : System State Action where
  init s := (s.all.map CityEvent.id).Nodup ∧ s.cursor = none ∧ s.yielded = []
  step := step f

end Persola.City.Stream
