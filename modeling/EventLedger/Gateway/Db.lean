import EventLedger.Base.Store
import EventLedger.Common.Rows

namespace Gateway

structure EventRow extends PayloadColumns where
  status : Text
  createdAt : Text
  updatedAt : Text
  deriving DecidableEq

-- The table `events`; its primary key is `event_id`.
abbrev Events :=
  Table EventRow fun row => row.eventId

-- The exceptions of the repository.
inductive InsertError
  | duplicateEventConflict (eventId : Text)
  | unreadable (reason : Unreadable)
  | integrity
  | runtime (message : Text)
  deriving DecidableEq

-- `_same_event` of the repository, which compares the texts of the times.
def Repository.sameEvent : EventPayload → EventPayload → Bool :=
  EventPayload.sameEvent fun existing incoming =>
    Time.formatUtc existing = Time.formatUtc incoming

def readStatus (text : Text) : Except Unreadable EventStatus :=
  match EventStatus.ofValue text with
  | some status => .ok status
  | none        => .error (.invalid (.field "status".toList "enum".toList))

def eventFromRow (row : EventRow) : Except Unreadable EventRecord := do
  let payload ← row.payload
  let status ← readStatus row.status
  let createdAt ← PayloadColumns.readTimestamp row.createdAt
  let updatedAt ← PayloadColumns.readTimestamp row.updatedAt
  return { payload with status, createdAt, updatedAt }

def getEvent (t : Events) (eventId : Text) : Except InsertError (Option EventRecord) :=
  match t.find? eventId with
  | none     => .ok none
  | some row => (eventFromRow row).mapError .unreadable |>.map some

def insertedRow (now : Civil) (event : EventPayload) : EventRow :=
  { event.columns with
    status := EventStatus.applied.value
    createdAt := Time.formatUtc now
    updatedAt := Time.formatUtc now }

-- The answer is the stored record, and whether this call has inserted it.
def insertAppliedEvent (now : Civil) (event : EventPayload) (t : Events) :
    Except InsertError (EventRecord × Bool) × Events :=
  match getEvent t event.eventId with
  | .error e => (.error e, t)
  | .ok (some existing) =>
    if Repository.sameEvent existing.toEventPayload event then
      (.ok (existing, false), t)
    else
      (.error (.duplicateEventConflict event.eventId), t)
  | .ok none =>
    match t.insert (insertedRow now event) with
    | none   => (.error .integrity, t)
    | some u =>
      -- The insertion has been committed when the row is read back.
      match getEvent u event.eventId with
      | .error e            => (.error e, u)
      | .ok none            => (.error (.runtime "event insert was not readable".toList), u)
      | .ok (some inserted) => (.ok (inserted, true), u)

def listColumns (row : EventRow) : List (List ℕ) :=
  [Text.utf8 row.eventTimestamp, Text.utf8 row.eventId]

def listRows (order : RowOrder EventRow) (t : Events) (accountId : Text) : List EventRow :=
  Table.orderBy listColumns (t.select order (·.accountId = accountId))

def listEventsForAccount (order : RowOrder EventRow) (t : Events) (accountId : Text) :
    Except Unreadable (List EventRecord) :=
  (listRows order t accountId).mapM eventFromRow

-- The repository as a store that records each event once.
def store (now : Civil) :
    Store EventPayload EventRecord InsertError fun row : EventRow => row.eventId where
  keyOf event := event.eventId
  row := insertedRow now
  row_key _ := rfl
  read row := (eventFromRow row).mapError .unreadable
  same existing event := Repository.sameEvent existing.toEventPayload event
  refuses _ _ := none
  conflict event := .duplicateEventConflict event.eventId

-- A call of `insert_applied_event`, with the clock that it meets.
structure Call where
  now : Civil
  event : EventPayload

def Call.apply (t : Events) (call : Call) : Events :=
  (insertAppliedEvent call.now call.event t).2

-- The table that a sequence of calls leaves, whatever their outcomes.
def after (calls : List Call) : Events :=
  calls.foldl Call.apply .empty

end Gateway
