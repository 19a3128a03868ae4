import EventLedger.Account.Db
import EventLedger.Common.Http
import EventLedger.Common.Metrics

namespace Account

open Http

-- The operations that the routes lead to.
inductive Endpoint
  | applyTransaction (accountId : Text)
  | getBalance (accountId : Text)
  | getAccount (accountId : Text)
  deriving DecidableEq

-- The end of a route's pattern also matches before a newline at the end of the path.
def endsRoute (segment : Text) (name : String) : Bool :=
  segment = name.toList || segment = name.toList ++ ['\n']

-- The routes whose pattern matches a path, in their order.
def routes (path : Text) : List (Method × Endpoint) :=
  match path.splitOn '/' with
  | [[], top, accountId, name] =>
    if top = "accounts".toList ∧ accountId ≠ [] then
      (if endsRoute name "transactions" then [(.post, .applyTransaction accountId)] else []) ++
      (if endsRoute name "balance" then [(.get, .getBalance accountId)] else [])
    else
      []
  | [[], top, accountId] =>
    if top = "accounts".toList ∧ accountId ≠ [] then [(.get, .getAccount accountId)] else []
  | _ => []

inductive Routed
  | endpoint (e : Endpoint)
  | methodNotAllowed
  | redirect
  | notFound
  deriving DecidableEq

-- The path with the slash at its end removed or added.
def redirectPath (path : Text) : Text :=
  if path.getLast? = some '/' then path.rdropWhile (· = '/') else path ++ ['/']

-- A path of another method is refused, a path that misses or adds a slash is redirected.
def dispatch (method : Method) (path : Text) : Routed :=
  match (routes path).find? (·.1 = method) with
  | some (_, e) => .endpoint e
  | none        =>
    if routes path ≠ [] then .methodNotAllowed
    else if path ≠ ['/'] ∧ routes (redirectPath path) ≠ [] then .redirect
    else .notFound

-- A running service.
structure State where
  transactions : Transactions
  metrics : Metrics

namespace State

def init : State where
  transactions := .empty
  metrics := .empty

def recordDomainEvent (s : State) (name : String) : State :=
  { s with metrics := s.metrics.recordDomainEvent name }

def applied (s : State) (u : Transactions) : State :=
  { s with transactions := u }

-- What the table answers, as a response and with its counter.
def answer (s : State) : Except ApplyError (TransactionRecord × Bool) → Response × State
  | .ok (record, false) =>
    (.render 200 ⟨.obj record.modelFields, record.modelFields_wf⟩,
      s.recordDomainEvent "account.transactions.duplicate_replay")
  | .ok (record, true) =>
    (.render 201 ⟨.obj record.modelFields, record.modelFields_wf⟩,
      s.recordDomainEvent "account.transactions.applied")
  | .error (.duplicateEventConflict _) =>
    (.detail 409 "eventId already exists with different transaction details".toList,
      s.recordDomainEvent "account.transactions.idempotency_conflict")
  | .error (.accountCurrencyMismatch message) =>
    (.detail 409 message, s.recordDomainEvent "account.transactions.currency_conflict")
  | .error _ => (.internalError, s)

def applyTransaction (s : State) (order : RowOrder TransactionRow) (now : Civil)
    (accountId : Text) (event : EventPayload) : Response × State :=
  if event.accountId ≠ accountId then
    (.detail 400 "Path accountId must match payload accountId".toList,
      s.recordDomainEvent "account.transactions.path_mismatch")
  else
    let (result, u) := Account.applyTransaction order now event s.transactions
    (s.applied u).answer result

def getBalance (s : State) (order : RowOrder TransactionRow) (accountId : Text) : Response :=
  match Account.getBalance order s.transactions accountId with
  | .ok balance => .render 200 ⟨.obj balance.modelFields, balance.modelFields_wf⟩
  | .error _    => .internalError

def getAccount (s : State) (order : RowOrder TransactionRow) (accountId : Text) : Response :=
  match getAccountDetails order s.transactions accountId defaultLimit with
  | .ok details => .render 200 ⟨.obj details.modelFields, details.modelFields_wf⟩
  | .error _    => .internalError

def post (s : State) (order : RowOrder TransactionRow) (now : Civil) (accountId : Text) :
    Option Document → Response × State
  | none      => (.unprocessable [] "missing".toList, s)
  | some body =>
    match EventPayload.ofJson body with
    | .error e  => (.ofInvalid e, s)
    | .ok event => s.applyTransaction order now accountId event

-- One request: a server decodes the path before it looks for a route.
def handle (s : State) (order : RowOrder TransactionRow) (now : Civil) (request : Request) :
    Response × State :=
  match dispatch request.method (Url.unquote request.path) with
  | .endpoint (.applyTransaction accountId) => s.post order now accountId request.body
  | .endpoint (.getBalance accountId)       => (s.getBalance order accountId, s)
  | .endpoint (.getAccount accountId)       => (s.getAccount order accountId, s)
  | .methodNotAllowed                       => (.detail 405 "Method Not Allowed".toList, s)
  | .redirect                               => ({ status := 307, body := .text [] }, s)
  | .notFound                               => (.detail 404 "Not Found".toList, s)

end State

end Account
