import EventLedger.Common.Contracts

-- The text columns that the tables of both services have for a payload.
structure PayloadColumns where
  eventId : Text
  accountId : Text
  eventType : Text
  amount : Text
  currency : Text
  eventTimestamp : Text
  metadataJson : Text
  deriving DecidableEq

-- Why a row cannot be turned into a record.
inductive Unreadable
  | invalid (reason : Invalid)
  | amount
  | timestamp (reason : Time.Failure)
  | metadata
  deriving DecidableEq

-- `_metadata_json`, the same in both services.
def metadataJson (value : List (Text × Json)) : Text :=
  (Json.obj value).dumps

def EventPayload.columns (event : EventPayload) : PayloadColumns where
  eventId := event.eventId
  accountId := event.accountId
  eventType := event.type.value
  amount := event.amount.str
  currency := event.currency
  eventTimestamp := Time.formatUtc event.eventTimestamp
  metadataJson := metadataJson event.metadata

namespace PayloadColumns

def readAmount (row : PayloadColumns) : Except Unreadable Decimal :=
  match Decimal.ofText row.amount with
  | some d => .ok d
  | none   => .error .amount

def readTimestamp (text : Text) : Except Unreadable Civil :=
  match Time.parseTimestamp text with
  | .ok c    => .ok c
  | .error e => .error (.timestamp e)

def readMetadata (row : PayloadColumns) :
    Except Unreadable Members :=
  match h : Json.loads row.metadataJson with
  | some (.obj fs) => .ok ⟨fs, (Json.wf_obj.mp (Json.loads_wf h)).2⟩
  | some _         => .error (.invalid (.field "metadata".toList "dict_type".toList))
  | none           => .error .metadata

-- What the mapping of a row into a record does with the columns of the payload.
def payload (row : PayloadColumns) : Except Unreadable EventPayload := do
  let amount ← row.readAmount
  let eventTimestamp ← readTimestamp row.eventTimestamp
  let metadata ← row.readMetadata
  EventPayload.validate {
    eventId := row.eventId
    accountId := row.accountId
    type := row.eventType
    amount
    currency := row.currency
    eventTimestamp := .utc eventTimestamp
    metadata
  } |>.mapError .invalid

end PayloadColumns

namespace EventPayload

def storedMetadata (p : EventPayload) : List (Text × Json) :=
  (p.metadata.map fun f => (f.1, f.2.sorted)).insertionSort Json.NameLE

theorem sorted_metadata (p : EventPayload) :
    (Json.obj p.metadata).sorted = .obj p.storedMetadata :=
  Json.sorted_obj _

-- The payload as it is read back from its columns.
def stored (p : EventPayload) : EventPayload :=
  { p with
    metadata := p.storedMetadata
    metadata_wf := p.sorted_metadata ▸ Json.sorted_wf p.metadata_wf
    metadata_stripped := fun f hf => by
      have ⟨g, hg, he⟩ := List.mem_map.mp ((List.mem_insertionSort _).mp hf)
      exact he ▸ p.metadata_stripped g hg }

theorem stored_sameFacts (p : EventPayload) : p.stored.SameFacts p where
  eventId := rfl
  accountId := rfl
  type := rfl
  amount := rfl
  currency := rfl
  eventTimestamp := rfl
  metadata := p.sorted_metadata ▸ Json.pyEq_sorted p.metadata_wf

theorem readMetadata_columns (p : EventPayload) : p.columns.readMetadata =
    .ok ⟨p.storedMetadata, (Json.wf_obj.mp p.stored.metadata_wf).2⟩ := by
  have h : Json.loads p.columns.metadataJson = some (.obj p.storedMetadata) :=
    p.sorted_metadata ▸ Json.loads_dumps p.metadata_wf
  unfold PayloadColumns.readMetadata
  split
  case h_1 fs hf =>
    have he := Json.obj.inj (Option.some.inj (hf.symm.trans h))
    simp only [he]
  case h_2 hn hf => exact absurd (Option.some.inj (hf.symm.trans h)) (hn _)
  case h_3 hf => simp [hf] at h

theorem payload_columns_eq (p : EventPayload) :
    p.columns.payload = (validate p.stored.raw).mapError .invalid := by
  have ha : p.columns.readAmount = .ok p.amount := by
    simp [PayloadColumns.readAmount, columns, Decimal.ofText_str]
  have ht : PayloadColumns.readTimestamp p.columns.eventTimestamp = .ok p.eventTimestamp := by
    simp [PayloadColumns.readTimestamp, columns, Time.parseTimestamp_formatUtc]
  simp only [PayloadColumns.payload, ha, ht, p.readMetadata_columns, bind, Except.bind]
  rfl

-- A row that was written from a payload is read back, unless its currency has become longer than
-- its own check allows.
theorem payload_columns {p : EventPayload} (h : p.currency.length = 3) :
    p.columns.payload = .ok p.stored := by
  rw [payload_columns_eq, validate_raw (p := p.stored) h]
  rfl

theorem payload_columns_error {p : EventPayload} (h : p.currency.length ≠ 3) :
    ∃ e, p.columns.payload = .error e := by
  have ⟨e, he⟩ := validate_raw_error (p := p.stored) h
  exact ⟨.invalid e, by rw [payload_columns_eq, he]; rfl⟩

end EventPayload
