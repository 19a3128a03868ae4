import EventLedger.Gateway.Db

namespace Gateway

variable {now : Civil} {event p q : EventPayload} {t u : Events} {row : EventRow}

theorem Repository.sameEvent_iff : Repository.sameEvent p q ↔ p.SameFacts q :=
  EventPayload.sameEvent_iff fun c d => by simp [Time.formatUtc_injective.eq_iff]

theorem getEvent_none {eventId : Text} (h : t.find? eventId = none) :
    getEvent t eventId = .ok none := by
  rw [getEvent, h]

theorem getEvent_some {eventId : Text} (h : t.find? eventId = some row) : getEvent t eventId =
    ((eventFromRow row).mapError InsertError.unreadable).map some := by
  rw [getEvent, h]

theorem getEvent_eq_some {eventId : Text} {record : EventRecord}
    (h : getEvent t eventId = .ok (some record)) :
    ∃ row, t.find? eventId = some row ∧ eventFromRow row = .ok record := by
  cases hf : t.find? eventId
  case none => simp [getEvent_none hf] at h
  case some row =>
    rw [getEvent_some hf] at h
    cases hr : eventFromRow row
    case error => simp [hr, Except.mapError, Except.map] at h
    case ok b =>
      simp only [hr, Except.mapError, Except.map, Except.ok.injEq, Option.some.injEq] at h
      exact ⟨row, rfl, h ▸ hr⟩

-- The repository refines the store.
theorem insertAppliedEvent_put (now : Civil) (event : EventPayload) (t : Events) :
    (store now).Put t event (insertAppliedEvent now event t).1
      (insertAppliedEvent now event t).2 := by
  unfold insertAppliedEvent
  cases hf : t.find? event.eventId
  case some row =>
    rw [getEvent_some hf]
    cases hr : (eventFromRow row).mapError InsertError.unreadable
    case error e => exact .stale hf hr
    case ok existing =>
      simp only [Except.map]
      split
      case isTrue hs => exact .replayed hf hr hs
      case isFalse hs => exact .conflicting hf hr hs
  case none =>
    rw [getEvent_none hf]
    have ⟨u, hi, hu⟩ := Table.insert_of_find? (r := insertedRow now event) hf
    have hn : u.find? event.eventId = some (insertedRow now event) :=
      Table.find?_eq_some.mpr ⟨by simp [hu], rfl⟩
    simp only [hi, getEvent_some hn]
    cases hr : (eventFromRow (insertedRow now event)).mapError InsertError.unreadable
    case error e => exact .unread hf rfl hu hr
    case ok inserted => exact .inserted hf rfl hu hr

-- The record that is read back from the row of a payload.
def storedRecord (now : Civil) (event : EventPayload) : EventRecord :=
  { event.stored with status := .applied, createdAt := now, updatedAt := now }

theorem eventFromRow_inserted (h : event.currency.length = 3) :
    eventFromRow (insertedRow now event) = .ok (storedRecord now event) := by
  have hp : (insertedRow now event).payload = .ok event.stored := event.payload_columns h
  have hs : readStatus (insertedRow now event).status = .ok .applied := by
    simp [readStatus, insertedRow, EventStatus.ofValue]
  have ht : PayloadColumns.readTimestamp (insertedRow now event).createdAt = .ok now := by
    simp [PayloadColumns.readTimestamp, insertedRow, Time.parseTimestamp_formatUtc]
  have hu : PayloadColumns.readTimestamp (insertedRow now event).updatedAt = .ok now := ht
  rw [eventFromRow, Except.bind_of_ok hp, Except.bind_of_ok hs, Except.bind_of_ok ht,
    Except.bind_of_ok hu]
  rfl

theorem eventFromRow_error (h : event.currency.length ≠ 3) :
    ∃ e, eventFromRow (insertedRow now event) = .error e := by
  obtain ⟨e, he⟩ := event.payload_columns_error h
  have hp : (insertedRow now event).payload = .error e := he
  exact ⟨e, by rw [eventFromRow, Except.bind_of_error hp]⟩

-- A row that can be read is read as the record of the payload that it was written from.
theorem eventFromRow_inserted_iff {record : EventRecord} :
    eventFromRow (insertedRow now event) = .ok record ↔
    event.currency.length = 3 ∧ storedRecord now event = record := by
  by_cases h : event.currency.length = 3
  case pos => simp [eventFromRow_inserted h, h]
  case neg =>
    obtain ⟨e, he⟩ : ∃ e, eventFromRow (insertedRow now event) = .error e := eventFromRow_error h
    simp [he, h]

end Gateway
