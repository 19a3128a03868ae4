import EventLedger.Account.Theorems.Handling

namespace Account

open Http

variable {order : RowOrder TransactionRow} {now : Civil} {q : EventPayload} {u : Transactions}
variable {s : State} {request : Request} {x : Except ApplyError (TransactionRecord × Bool)}

namespace State

def count (s : State) (name : String) : ℕ :=
  s.metrics.count name

-- All that the handler of transactions has counted.
def counted (s : State) : ℕ :=
  s.count "account.transactions.applied" + s.count "account.transactions.duplicate_replay" +
    s.count "account.transactions.path_mismatch" +
    s.count "account.transactions.idempotency_conflict" +
    s.count "account.transactions.currency_conflict"

@[simp]
theorem count_recordDomainEvent (s : State) (name name' : String) :
    (s.recordDomainEvent name').count name = s.count name + if name = name' then 1 else 0 :=
  Metrics.count_recordDomainEvent ..

@[simp]
theorem transactions_recordDomainEvent (s : State) (name : String) :
    (s.recordDomainEvent name).transactions = s.transactions :=
  rfl

@[simp]
theorem count_applied (s : State) (u : Transactions) (name : String) :
    (s.applied u).count name = s.count name :=
  rfl

@[simp]
theorem transactions_applied (s : State) (u : Transactions) : (s.applied u).transactions = u :=
  rfl

end State

-- The request asks for the transaction of a payload that is valid, at the path of any account.
def posts (request : Request) : Bool :=
  match dispatch request.method (Url.unquote request.path), request.body with
  | .endpoint (.applyTransaction _), some body => (EventPayload.ofJson body).isOk
  | _,                               _         => false

-- A request counts itself if it is a transaction, and its row if it inserts one.
structure Counts (s : State) (posted : Bool) (s' : State) : Prop where
  counted : s'.counted = s.counted + if posted then 1 else 0
  applied : s'.count "account.transactions.applied" + s.transactions.rows.length =
    s.count "account.transactions.applied" + s'.transactions.rows.length

theorem Counts.other (s : State) : Counts s false s :=
  ⟨rfl, rfl⟩

theorem Counts.mismatch (s : State) :
    Counts s true (s.recordDomainEvent "account.transactions.path_mismatch") := by
  constructor <;> simp [State.counted]
  omega

-- What is read and written without an error is counted once.
theorem Counts.answer (hp : (store order now).Put s.transactions q x u)
    (hr : ∀ row ∈ s.transactions.rows, ∃ record, transactionFromRow row = .ok record)
    (hq : q.currency.length = 3) : Counts s true ((s.applied u).answer x).2 := by
  cases hp
  case replayed =>
    constructor <;> simp [State.answer, State.counted]
    omega
  case conflicting =>
    constructor <;> simp [store, State.answer, State.counted]
    omega
  case refused hg =>
    obtain ⟨currency, _, rfl⟩ := Option.map_eq_some_iff.mp hg
    constructor <;> simp [State.answer, State.counted]
    omega
  case inserted hu =>
    constructor <;> simp [hu, State.answer, State.counted] <;> omega
  case stale hf hread =>
    obtain ⟨record, hrow⟩ := hr _ (Table.find?_eq_some.mp hf).1
    obtain ⟨_, he, _⟩ := Except.mapError_eq_error hread
    cases he.symm.trans hrow
  case unread hread _ =>
    obtain ⟨_, he, _⟩ := Except.mapError_eq_error hread
    cases he.symm.trans (transactionFromRow_inserted hq)

theorem counts_handle
    (hr : ∀ row ∈ s.transactions.rows, ∃ record, transactionFromRow row = .ok record)
    (hq : ∀ body q, request.body = some body → EventPayload.ofJson body = .ok q →
      q.currency.length = 3) :
    Counts s (posts request) (s.handle order now request).2 := by
  unfold State.handle posts
  cases dispatch request.method (Url.unquote request.path)
  case endpoint e =>
    cases e
    case applyTransaction accountId =>
      cases hb : request.body
      case none => exact .other s
      case some body =>
        cases hj : EventPayload.ofJson body
        case error =>
          simp only [State.post, hj]
          exact .other s
        case ok event =>
          simp only [State.post, hj, State.applyTransaction]
          split
          case isTrue  => exact .mismatch s
          case isFalse => exact .answer (applyTransaction_put ..) hr (hq body event hb hj)
    all_goals exact .other s
  all_goals exact .other s

end Account
