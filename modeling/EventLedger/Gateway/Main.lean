import EventLedger.Base.Machine
import EventLedger.Common.Metrics
import EventLedger.Common.Responses
import EventLedger.Gateway.AccountClient
import EventLedger.Gateway.Db
import Mathlib.Logic.Function.Basic

namespace Gateway

open Http

-- `_same_event` of the handlers, which compares the times themselves.
def sameEvent : EventPayload → EventPayload → Bool :=
  EventPayload.sameEvent fun existing incoming => existing.instant = incoming.instant

-- What a handler answers.
inductive Reply
  | event (status : ℕ) (record : EventRecord)
  | balance (balance : BalanceResponse)
  | account (details : AccountDetailsResponse)
  -- HTTPException
  | refused (status : ℕ) (detail : Json)
  -- another exception leaves the handler
  | internalError

def Reply.status : Reply → ℕ
  | event status _   => status
  | balance _        => 200
  | account _        => 200
  | refused status _ => status
  | internalError    => 500

-- The phrases of the client errors that `http.HTTPStatus` knows.
def clientErrorPhrases : List (ℕ × String) :=
  [
    (400, "Bad Request"), (401, "Unauthorized"), (402, "Payment Required"), (403, "Forbidden"),
    (404, "Not Found"), (405, "Method Not Allowed"), (406, "Not Acceptable"),
    (407, "Proxy Authentication Required"), (408, "Request Timeout"), (409, "Conflict"),
    (410, "Gone"), (411, "Length Required"), (412, "Precondition Failed"),
    (413, "Request Entity Too Large"), (414, "Request-URI Too Long"),
    (415, "Unsupported Media Type"), (416, "Requested Range Not Satisfiable"),
    (417, "Expectation Failed"), (418, "I'm a Teapot"), (421, "Misdirected Request"),
    (422, "Unprocessable Entity"), (423, "Locked"), (424, "Failed Dependency"),
    (425, "Too Early"), (426, "Upgrade Required"), (428, "Precondition Required"),
    (429, "Too Many Requests"), (431, "Request Header Fields Too Large"),
    (451, "Unavailable For Legal Reasons")
  ]

-- The detail that an HTTPException has: for None it takes the phrase of its status, and it raises
-- on a status without one.
def exceptionDetail (status : ℕ) : Json → Option Json
  | .null  => (clientErrorPhrases.lookup status).map (.str ·.toList)
  | detail => some detail

-- The JSON of an answer, if it has one.
def Reply.content : Reply → Option Json
  | event _ record        => some (.obj record.modelFields)
  | balance response      => some (.obj response.modelFields)
  | account details       => some (.obj details.modelFields)
  | refused status detail =>
    (exceptionDetail status detail).map fun detail => .obj [("detail".toList, detail)]
  | internalError         => none

-- The status of the response: the rendering fails on the floats that JSON does not have.
def Reply.sentStatus (reply : Reply) : ℕ :=
  if reply.content.any Json.isStandard then reply.status else 500

def conflictDetail : Json :=
  .str "eventId already exists with different event details".toList

-- What the caller of an operation is told has not happened.
def Operation.consequence : Operation → Text
  | applyTransaction _ => "transaction was not accepted".toList
  | getBalance _       => "balance cannot be retrieved".toList
  | getAccount _       => "account details cannot be retrieved".toList

def circuitOpenDetail (operation : Operation) : Json :=
  .str ("Account Service circuit breaker is open; ".toList ++ operation.consequence)

def unavailableDetail (operation : Operation) : Json :=
  .str ("Account Service is unavailable; ".toList ++ operation.consequence)

-- What a handler awaits.
inductive Phase
  | calling
  | sleeping (delay : ℚ)

-- A handler that awaits the downstream call of its operation.
structure Handler where
  operation : Operation
  attempt : ℕ
  phase : Phase

structure Answer where
  handler : ℕ
  reply : Reply

-- An attempt is known by its handler and its number.
structure Tag where
  handler : ℕ
  attempt : ℕ
  deriving DecidableEq

structure Sent where
  tag : Tag
  request : Request

-- A running Gateway. The handlers are numbered in the order in which they begin; their operations
-- and what they have answered are kept for the record.
structure State where
  events : Events
  breaker : Breaker
  metrics : Metrics
  clock : ℚ
  handlers : ℕ → Option Handler
  begun : List Operation
  answers : List Answer

namespace State

def init : State where
  events := .empty
  breaker := .closed
  metrics := .empty
  clock := 0
  handlers _ := none
  begun := []
  answers := []

def recordDomainEvent (s : State) (name : String) : State :=
  { s with metrics := s.metrics.recordDomainEvent name }

def enter (s : State) (id : ℕ) (handler : Handler) : State :=
  { s with handlers := Function.update s.handlers id (some handler) }

def answer (s : State) (id : ℕ) (reply : Reply) : State :=
  { s with
    handlers := Function.update s.handlers id none
    answers := s.answers ++ [{ handler := id, reply }] }

def start (s : State) (operation : Operation) : State :=
  { s with begun := s.begun ++ [operation] }

variable (client : Client) (s : State) (id : ℕ)

-- Makes an attempt, unless the request cannot be built.
def send (operation : Operation) (attempt : ℕ) : State × Option Sent :=
  match client.request operation with
  | none         => (s.answer id .internalError, none)
  | some request =>
    (s.enter id { operation, attempt, phase := .calling }, some { tag := ⟨id, attempt⟩, request })

def call (operation : Operation) : State × Option Sent :=
  if s.breaker.allowsRequest client s.clock then
    s.send client id operation 1
  else
    ((s.recordDomainEvent "gateway.account_service.circuit_open"
      |>.recordDomainEvent "gateway.account_service.unavailable"
      |>.answer id (.refused 503 (circuitOpenDetail operation))), none)

def conflict : State :=
  s.recordDomainEvent "gateway.events.idempotency_conflict"
    |>.answer id (.refused 409 conflictDetail)

-- `submit_event` until its downstream call.
def submitEvent (event : EventPayload) : State × Option Sent :=
  match Gateway.getEvent s.events event.eventId with
  | .error _ => (s.answer id .internalError, none)
  | .ok none => s.call client id (.applyTransaction event)
  | .ok (some existing) =>
    if sameEvent existing.toEventPayload event then
      (s.recordDomainEvent "gateway.events.duplicate_replay"
        |>.answer id (.event 200 existing), none)
    else
      (s.conflict id, none)

-- A request arrives.
def begin (operation : Operation) : State × Option Sent :=
  match operation with
  | .applyTransaction event => (s.start operation).submitEvent client s.begun.length event
  | _                       => (s.start operation).call client s.begun.length operation

def inserted (events : Events) (result : Except InsertError (EventRecord × Bool)) : State :=
  let s := { s with events }
  match result with
  | .ok (record, true) =>
    s.recordDomainEvent "gateway.events.accepted" |>.answer id (.event 201 record)
  | .ok (record, false) =>
    s.recordDomainEvent "gateway.events.duplicate_replay" |>.answer id (.event 200 record)
  | .error (.duplicateEventConflict _) => s.conflict id
  | .error _ => s.answer id .internalError

-- The rest of a handler, after the payload of the downstream call.
def returned (now : Civil) (operation : Operation) (payload : Document) : State :=
  match operation with
  | .applyTransaction event =>
    let (result, events) := insertAppliedEvent now event s.events
    s.inserted id events result
  | .getBalance _ =>
    s.answer id <| match BalanceResponse.ofJson payload with
    | .ok balance => .balance balance
    | .error _    => .internalError
  | .getAccount _ =>
    s.answer id <| match AccountDetailsResponse.ofJson payload with
    | .ok details => .account details
    | .error _    => .internalError

-- Only a rejected submission is counted.
def rejected (operation : Operation) (status : ℕ) (detail : Json) : State :=
  let s := match operation with
    | .applyTransaction _ => s.recordDomainEvent "gateway.account_service.rejected"
    | _                   => s
  s.answer id (.refused status detail)

def unavailable (operation : Operation) : State :=
  s.recordDomainEvent "gateway.account_service.unavailable"
    |>.answer id (.refused 503 (unavailableDetail operation))

-- A handler goes on with the verdict of its client.
def resume (now : Civil) (operation : Operation) (attempt : ℕ) : Verdict → State
  | .retry delay            => s.enter id { operation, attempt, phase := .sleeping delay }
  | .unavailable            => s.unavailable id operation
  | .rejected status detail => s.rejected id operation status detail
  | .returned payload       => s.returned id now operation payload
  | .escaped                => s.answer id .internalError

-- The attempt that a handler awaits ends.
def settle (now : Civil) (outcome : Outcome) : Option State :=
  match s.handlers id with
  | some ⟨operation, attempt, .calling⟩ =>
    let (verdict, breaker) := client.settle s.clock attempt s.breaker outcome
    some <| { s with breaker }.resume id now operation attempt verdict
  | _ => none

-- The sleep before the next attempt ends.
def wake : Option (State × Option Sent) :=
  match s.handlers id with
  | some ⟨operation, attempt, .sleeping _⟩ => some <| s.send client id operation (attempt + 1)
  | _                                      => none

def wait (duration : ℚ) : Option State :=
  if 0 ≤ duration then some { s with clock := s.clock + duration } else none

-- The process stops and starts again with its database.
def restart : State :=
  { s with
    breaker := .closed
    metrics := .empty
    handlers := fun _ => none }

-- The reads that depend on the table only.
def getEvent (eventId : Text) : Reply :=
  match Gateway.getEvent s.events eventId with
  | .error _        => .internalError
  | .ok none        => .refused 404 (.str "event not found".toList)
  | .ok (some record) => .event 200 record

end State

-- The handlers run on one event loop, so that nothing happens between two awaits.
inductive Action
  | begin (operation : Operation)
  | settle (id : ℕ) (now : Civil) (outcome : Outcome)
  | wake (id : ℕ)
  | wait (duration : ℚ)
  | restart

def State.step (client : Client) (s : State) : Action → Option (State × Option Sent)
  | .begin operation        => some (s.begin client operation)
  | .settle id now outcome  => (s.settle client id now outcome).map (·, none)
  | .wake id                => s.wake client id
  | .wait duration          => (s.wait duration).map (·, none)
  | .restart                => some (s.restart, none)

-- The Gateway with downstream calls that may end in any way.
def machine (client : Client) : Machine State Action where
  init := .init
  step s a := (s.step client a).map (·.1)

end Gateway
