import EventLedger.Gateway.AccountClient

namespace Gateway

open Http

-- What a call of the client does, in this order.
inductive Act
  | sends
  | sleeps (delay : ℚ)
  | recordsSuccess
  | recordsFailure
  deriving DecidableEq

-- How a call of the client ends.
inductive Ending
  | returned (payload : Document)
  -- AccountServiceRejectedError
  | rejected (status : ℕ) (detail : Json)
  -- AccountServiceUnavailableError
  | unavailable (message : Text)
  -- AccountServiceCircuitOpenError
  | circuitOpen
  -- another exception
  | escaped

def unreachableMessage : Text :=
  "Account Service is unreachable".toList

def unavailableMessage : Text :=
  "Account Service is unavailable".toList

namespace Client

variable (client : Client)

-- The sleep before the next attempt.
def sleep (attempt : ℕ) : List Act × Option Ending :=
  match client.delay attempt with
  | some delay => ([.sleeps delay], none)
  | none       => ([], some .escaped)

-- The body of the retry loop after the attempt, which goes on with the next one unless it ends.
def attemptBody (attempt : ℕ) : Outcome → List Act × Option Ending
  | .error e =>
    if e.isCaught then
      if attempt < client.maxAttempts then
        client.sleep attempt
      else
        ([.recordsFailure], some (.unavailable unreachableMessage))
    else
      ([], some .escaped)
  | .response r =>
    if 500 ≤ r.status then
      if attempt < client.maxAttempts then
        client.sleep attempt
      else
        ([.recordsFailure], some (.unavailable unavailableMessage))
    else if 400 ≤ r.status then
      match responseDetail r.body with
      | some detail => ([.recordsSuccess], some (.rejected r.status detail))
      | none        => ([.recordsSuccess], some .escaped)
    else
      match r.body with
      | .json payload => ([.recordsSuccess], some (.returned payload))
      | .text _       => ([.recordsSuccess], some .escaped)

-- The retry loop from some attempt on. The outcomes are those of the attempts, by their numbers.
def loop (outcomes : ℕ → Outcome) : ℕ → ℕ → List Act × Option Ending
  | _,       0             => ([], none)
  | attempt, remaining + 1 =>
    match client.attemptBody attempt (outcomes attempt) with
    | (acts, some ending) => (.sends :: acts, some ending)
    | (acts, none)        =>
      let (more, ending) := loop outcomes (attempt + 1) remaining
      (.sends :: acts ++ more, ending)

-- `_request`, for a call that meets this breaker and this clock.
def boundedRequest (b : Breaker) (clock : ℚ) (outcomes : ℕ → Outcome) : List Act × Ending :=
  if b.allowsRequest client clock then
    match client.loop outcomes 1 client.maxAttempts with
    | (acts, some ending) => (acts, ending)
    -- The statements after the loop.
    | (acts, none)        => (acts ++ [.recordsFailure], .unavailable unreachableMessage)
  else
    ([], .circuitOpen)

end Client

end Gateway
