import EventLedger.Base.DecimalContext
import EventLedger.Base.Store
import EventLedger.Common.Responses
import EventLedger.Common.Rows

namespace Account

structure TransactionRow extends PayloadColumns where
  appliedAt : Text
  deriving DecidableEq

-- The table `transactions`; its primary key is `event_id`.
abbrev Transactions :=
  Table TransactionRow fun row => row.eventId

-- The exceptions of the repository.
inductive ApplyError
  | duplicateEventConflict (eventId : Text)
  | accountCurrencyMismatch (message : Text)
  | unreadable (reason : Unreadable)
  | integrity
  | runtime (message : Text)
  deriving DecidableEq

def sameEvent : EventPayload → EventPayload → Bool :=
  EventPayload.sameEvent fun existing incoming =>
    Time.formatUtc existing = Time.formatUtc incoming

def transactionFromRow (row : TransactionRow) : Except Unreadable TransactionRecord := do
  let payload ← row.payload
  let appliedAt ← PayloadColumns.readTimestamp row.appliedAt
  return { payload with appliedAt }

def getTransaction (t : Transactions) (eventId : Text) :
    Except ApplyError (Option TransactionRecord) :=
  match t.find? eventId with
  | none     => .ok none
  | some row => (transactionFromRow row).mapError .unreadable |>.map some

-- The query has LIMIT 1 and no ORDER BY.
def accountCurrency (order : RowOrder TransactionRow) (t : Transactions) (accountId : Text) :
    Option Text :=
  (t.select order (·.accountId = accountId)).head?.map (·.currency)

def insertedRow (now : Civil) (event : EventPayload) : TransactionRow :=
  { event.columns with appliedAt := Time.formatUtc now }

def mismatchMessage (accountId accountCurrency : Text) : Text :=
  "account ".toList ++ accountId ++ " already uses currency ".toList ++ accountCurrency

-- The answer is the stored record, and whether this call has inserted it.
def applyTransaction (order : RowOrder TransactionRow) (now : Civil) (event : EventPayload)
    (t : Transactions) : Except ApplyError (TransactionRecord × Bool) × Transactions :=
  match getTransaction t event.eventId with
  | .error e => (.error e, t)
  | .ok (some existing) =>
    if sameEvent existing.toEventPayload event then
      (.ok (existing, false), t)
    else
      (.error (.duplicateEventConflict event.eventId), t)
  | .ok none =>
    match (accountCurrency order t event.accountId).filter (· ≠ event.currency) with
    | some currency =>
      (.error (.accountCurrencyMismatch (mismatchMessage event.accountId currency)), t)
    | none =>
      match t.insert (insertedRow now event) with
      | none   => (.error .integrity, t)
      | some u =>
        -- The insertion has been committed when the row is read back.
        match getTransaction u event.eventId with
        | .error e            => (.error e, u)
        | .ok none            => (.error (.runtime "transaction insert was not readable".toList), u)
        | .ok (some inserted) => (.ok (inserted, true), u)

-- The default context of Python's decimals, in which an overflow raises an exception.
def context : Decimal.Context where
  prec := 28
  emin := -999999
  emax := 999999
  prec_pos := by decide
  emin_le := by decide

-- What the summation of an account raises.
inductive ReadError
  | unreadable (reason : Unreadable)
  | overflow
  deriving DecidableEq

def ReadError.ofResult : Option Decimal → Except ReadError Decimal
  | none   => .error .overflow
  | some d => .ok d

def signedAmount (row : TransactionRow) : Except ReadError Decimal := do
  let amount ← row.readAmount.mapError .unreadable
  if row.eventType = TransactionType.credit.value then
    return amount
  else
    ReadError.ofResult (Decimal.minus context amount)

def balanceStep (state : Decimal × Option Text) (row : TransactionRow) :
    Except ReadError (Decimal × Option Text) := do
  let amount ← signedAmount row
  let balance ← ReadError.ofResult (Decimal.add context state.1 amount)
  return (balance, (state.2.filter (· ≠ [])).or (some row.currency))

def getBalance (order : RowOrder TransactionRow) (t : Transactions) (accountId : Text) :
    Except ReadError BalanceResponse :=
  ((t.select order (·.accountId = accountId)).foldlM balanceStep (Decimal.zero, none)).map
    fun (balance, currency) => { accountId := accountId.strip, balance, currency }

def historyColumns (row : TransactionRow) : List (List ℕ) :=
  [Text.utf8 row.eventTimestamp, Text.utf8 row.eventId]

def history (order : RowOrder TransactionRow) (t : Transactions) (accountId : Text) (limit : ℕ) :
    List TransactionRow :=
  (Table.orderBy historyColumns (t.select order (·.accountId = accountId))).take limit

def defaultLimit : ℕ := 25

def getAccountDetails (order : RowOrder TransactionRow) (t : Transactions) (accountId : Text)
    (limit : ℕ) : Except ReadError AccountDetailsResponse := do
  let balance ← getBalance order t accountId
  let recentTransactions ←
    ((history order t accountId limit).mapM transactionFromRow).mapError .unreadable
  return { balance with recentTransactions }

-- The repository as a store that records each event once.
def store (order : RowOrder TransactionRow) (now : Civil) :
    Store EventPayload TransactionRecord ApplyError fun row : TransactionRow => row.eventId where
  keyOf event := event.eventId
  row := insertedRow now
  row_key _ := rfl
  read row := (transactionFromRow row).mapError .unreadable
  same existing event := sameEvent existing.toEventPayload event
  refuses t event := (accountCurrency order t event.accountId).filter (· ≠ event.currency) |>.map
    fun currency => .accountCurrencyMismatch (mismatchMessage event.accountId currency)
  conflict event := .duplicateEventConflict event.eventId

-- A call of `apply_transaction`, with the row order and the clock that it meets.
structure Call where
  order : RowOrder TransactionRow
  now : Civil
  event : EventPayload

def Call.apply (t : Transactions) (call : Call) : Transactions :=
  (applyTransaction call.order call.now call.event t).2

-- The table that a sequence of calls leaves, whatever their outcomes.
def after (calls : List Call) : Transactions :=
  calls.foldl Call.apply .empty

end Account
