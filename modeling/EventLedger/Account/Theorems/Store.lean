import EventLedger.Account.Db

namespace Account

variable {order : RowOrder TransactionRow} {now : Civil} {event : EventPayload} {t u : Transactions}
variable {x : Except ApplyError (TransactionRecord × Bool)}

theorem sameEvent_iff {p q : EventPayload} : sameEvent p q ↔ p.SameFacts q :=
  EventPayload.sameEvent_iff fun c d => by simp [Time.formatUtc_injective.eq_iff]

theorem getTransaction_none {eventId : Text} (h : t.find? eventId = none) :
    getTransaction t eventId = .ok none := by
  rw [getTransaction, h]

theorem getTransaction_some {eventId : Text} {row : TransactionRow}
    (h : t.find? eventId = some row) : getTransaction t eventId =
    ((transactionFromRow row).mapError ApplyError.unreadable).map some := by
  rw [getTransaction, h]

-- The record that is read back from the row of a payload.
def storedRecord (now : Civil) (event : EventPayload) : TransactionRecord :=
  { event.stored with appliedAt := now }

theorem transactionFromRow_inserted (h : event.currency.length = 3) :
    transactionFromRow (insertedRow now event) = .ok (storedRecord now event) := by
  have hp : (insertedRow now event).payload = .ok event.stored := event.payload_columns h
  have ht : PayloadColumns.readTimestamp (insertedRow now event).appliedAt = .ok now := by
    simp [PayloadColumns.readTimestamp, insertedRow, Time.parseTimestamp_formatUtc]
  rw [transactionFromRow, Except.bind_of_ok hp, Except.bind_of_ok ht]
  rfl

theorem transactionFromRow_error (h : event.currency.length ≠ 3) :
    ∃ e, transactionFromRow (insertedRow now event) = .error e := by
  have ⟨e, he⟩ := event.payload_columns_error h
  have hp : (insertedRow now event).payload = .error e := he
  exact ⟨e, by rw [transactionFromRow, Except.bind_of_error hp]⟩

-- A row that can be read is read as the record of the payload that it was written from.
theorem transactionFromRow_inserted_iff {record : TransactionRecord} :
    transactionFromRow (insertedRow now event) = .ok record ↔
    event.currency.length = 3 ∧ storedRecord now event = record := by
  by_cases h : event.currency.length = 3
  case pos => simp [transactionFromRow_inserted h, h]
  case neg =>
    obtain ⟨e, he⟩ : ∃ e, transactionFromRow (insertedRow now event) = .error e :=
      transactionFromRow_error h
    simp [he, h]

-- The repository refines the store.
theorem applyTransaction_put (order : RowOrder TransactionRow) (now : Civil) (event : EventPayload)
    (t : Transactions) : (store order now).Put t event (applyTransaction order now event t).1
      (applyTransaction order now event t).2 := by
  unfold applyTransaction
  cases hf : t.find? event.eventId
  case some row =>
    rw [getTransaction_some hf]
    cases hr : (transactionFromRow row).mapError ApplyError.unreadable
    case error e => exact .stale hf hr
    case ok existing =>
      simp only [Except.map]
      split
      case isTrue hs => exact .replayed hf hr hs
      case isFalse hs => exact .conflicting hf hr hs
  case none =>
    rw [getTransaction_none hf]
    cases hc : (accountCurrency order t event.accountId).filter (· ≠ event.currency)
    case some currency => exact .refused hf (by simp only [store, hc]; rfl)
    case none =>
      have hg : (store order now).refuses t event = none := by simp only [store, hc]; rfl
      have ⟨u, hi, hu⟩ := Table.insert_of_find? (r := insertedRow now event) hf
      have hn : u.find? event.eventId = some (insertedRow now event) :=
        Table.find?_eq_some.mpr ⟨by simp [hu], rfl⟩
      simp only [hi, getTransaction_some hn]
      cases hr : (transactionFromRow (insertedRow now event)).mapError ApplyError.unreadable
      case error e => exact .unread hf hg hu hr
      case ok inserted => exact .inserted hf hg hu hr

end Account
