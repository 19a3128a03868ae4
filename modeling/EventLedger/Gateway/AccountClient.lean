import EventLedger.Common.Http
import EventLedger.Common.Wire
import Mathlib.Data.Rat.Defs
import Mathlib.Algebra.Order.Ring.Rat

namespace Gateway

open Http

-- The exceptions that a request can raise while it is under way.
inductive TransportError
  | connectError
  | connectTimeout
  | readTimeout
  | writeTimeout
  | poolTimeout
  | readError
  | writeError
  | closeError
  | protocolError
  | other
  deriving DecidableEq

-- The exceptions that the retry loop catches: `ConnectError`, and `TimeoutException` with all that
-- derive from it.
def TransportError.isCaught : TransportError → Bool
  | connectError | connectTimeout | readTimeout | writeTimeout | poolTimeout => true
  | _ => false

-- How an awaited attempt ends.
inductive Outcome
  | error (e : TransportError)
  | response (r : Response)

-- The settings of the client, after the constructor has clamped them.
structure Client where
  rules : Url.Rules
  -- the metadata that pydantic can dump
  dumps : Json → Bool
  maxAttempts : ℕ
  backoffSeconds : ℚ
  circuitFailureThreshold : ℕ
  circuitResetSeconds : ℚ
  maxAttempts_pos : 1 ≤ maxAttempts
  backoffSeconds_nonneg : 0 ≤ backoffSeconds
  circuitFailureThreshold_pos : 1 ≤ circuitFailureThreshold
  circuitResetSeconds_nonneg : 0 ≤ circuitResetSeconds

def Client.ofArguments (rules : Url.Rules) (maxAttempts : ℤ) (backoffSeconds : ℚ)
    (circuitFailureThreshold : ℤ) (circuitResetSeconds : ℚ) : Client where
  rules
  dumps := EventPayload.pydanticDumps
  maxAttempts := (max 1 maxAttempts).toNat
  backoffSeconds := max 0 backoffSeconds
  circuitFailureThreshold := (max 1 circuitFailureThreshold).toNat
  circuitResetSeconds := max 0 circuitResetSeconds
  maxAttempts_pos := by omega
  backoffSeconds_nonneg := le_max_left _ _
  circuitFailureThreshold_pos := by omega
  circuitResetSeconds_nonneg := le_max_left _ _

-- What the HTTP library leaves as it is in a path: the printable ASCII characters but these.
def httpxRules : Url.Rules where
  safe c := 33 ≤ c.toNat && c.toNat < 127 && !"\"#<>?\x60\x7b\x7d".toList.contains c
  maxLength := 65536

-- The client with the defaults of its constructor.
def Client.default : Client :=
  .ofArguments httpxRules 3 (1 / 10) 3 5

-- The state of the circuit breaker.
structure Breaker where
  consecutiveFailures : ℕ
  circuitOpenedAt : Option ℚ
  deriving DecidableEq

namespace Breaker

def closed : Breaker where
  consecutiveFailures := 0
  circuitOpenedAt := none

-- `_ensure_circuit_allows_request` returns.
def allowsRequest (b : Breaker) (client : Client) (clock : ℚ) : Bool :=
  match b.circuitOpenedAt with
  | none        => true
  | some opened => client.circuitResetSeconds ≤ clock - opened

def recordDownstreamSuccess (_ : Breaker) : Breaker :=
  closed

def recordDownstreamFailure (b : Breaker) (client : Client) (clock : ℚ) : Breaker where
  consecutiveFailures := b.consecutiveFailures + 1
  circuitOpenedAt :=
    if client.circuitFailureThreshold ≤ b.consecutiveFailures + 1 then some clock
    else b.circuitOpenedAt

end Breaker

-- The calls that the client makes.
inductive Operation
  | applyTransaction (event : EventPayload)
  | getBalance (accountId : Text)
  | getAccount (accountId : Text)

def transactionsPath (accountId : Text) : Text :=
  "/accounts/".toList ++ accountId ++ "/transactions".toList

def balancePath (accountId : Text) : Text :=
  "/accounts/".toList ++ accountId ++ "/balance".toList

def accountPath (accountId : Text) : Text :=
  "/accounts/".toList ++ accountId

namespace Client

-- The request of a call. The HTTP library raises on a text that is no URL.
def request (client : Client) : Operation → Option Request
  | .applyTransaction event =>
    (event.encode client.dumps).bind fun body =>
      (Url.encode client.rules (transactionsPath event.accountId)).map fun path =>
        { method := .post, path, body := some body }
  | .getBalance accountId =>
    (Url.encode client.rules (balancePath accountId)).map fun path =>
      { method := .get, path, body := none }
  | .getAccount accountId =>
    (Url.encode client.rules (accountPath accountId)).map fun path =>
      { method := .get, path, body := none }

end Client

-- `_response_detail` raises on JSON that is not an object.
def responseDetail : Body → Option Json
  | .text t            => some (.str t)
  | .json ⟨.obj fs, _⟩ => some ((fs.lookup "detail".toList).getD (.obj fs))
  | .json _            => none

-- What the retry loop does when an attempt has ended.
inductive Verdict
  -- sleeps, and makes the next attempt
  | retry (delay : ℚ)
  -- raises AccountServiceUnavailableError
  | unavailable
  -- raises AccountServiceRejectedError
  | rejected (status : ℕ) (detail : Json)
  | returned (payload : Document)
  -- another exception leaves the loop
  | escaped

namespace Client

variable (client : Client) (clock : ℚ) (attempt : ℕ) (b : Breaker)

-- The attempt after which the delay raises an OverflowError: there is no float for `2 ** 1024`.
def overflowAttempt : ℕ := 1025

-- The sleep after an attempt that is retried.
def delay : Option ℚ :=
  if attempt < overflowAttempt then some (client.backoffSeconds * 2 ^ (attempt - 1)) else none

def failed : Verdict × Breaker :=
  if attempt < client.maxAttempts then
    match client.delay attempt with
    | some delay => (.retry delay, b)
    | none       => (.escaped, b)
  else
    (.unavailable, b.recordDownstreamFailure client clock)

def settle : Outcome → Verdict × Breaker
  | .error e =>
    if e.isCaught then client.failed clock attempt b else (.escaped, b)
  | .response r =>
    if 500 ≤ r.status then
      client.failed clock attempt b
    else if 400 ≤ r.status then
      match responseDetail r.body with
      | some detail => (.rejected r.status detail, b.recordDownstreamSuccess)
      | none        => (.escaped, b.recordDownstreamSuccess)
    else
      match r.body with
      | .json payload => (.returned payload, b.recordDownstreamSuccess)
      | .text _       => (.escaped, b.recordDownstreamSuccess)

end Client

end Gateway
