import Mathlib.Data.List.Forall2
import EventLedger.Base.JsonRoundtrip
import EventLedger.Base.JsonWellFormed
import EventLedger.Base.Unicode
import EventLedger.Common.Time

namespace Except

variable {ε α β : Type} {x : Except ε α} {a : α} {e : ε} {b : β} {f : α → Except ε β}

theorem bind_of_ok (h : x = .ok a) : x >>= f = f a :=
  h ▸ rfl

theorem bind_of_error (h : x = .error e) : x >>= f = .error e :=
  h ▸ rfl

theorem bind_eq_ok (h : x >>= f = .ok b) : ∃ a, x = .ok a ∧ f a = .ok b := by
  cases x
  case error => cases h
  case ok a => exact ⟨a, rfl, h⟩

theorem bind_eq_ok_iff : x >>= f = .ok b ↔ ∃ a, x = .ok a ∧ f a = .ok b where
  mp h := bind_eq_ok h
  mpr h := by
    have ⟨a, ha, h⟩ := h
    exact (bind_of_ok ha).trans h

theorem mapM_eq_ok_iff {as : List α} {bs : List β} :
    as.mapM f = .ok bs ↔ List.Forall₂ (fun a b => f a = .ok b) as bs := by
  induction as generalizing bs
  case nil =>
    rw [List.mapM_nil, List.forall₂_nil_left_iff]
    exact ⟨fun h => (Except.ok.inj h).symm, fun h => h ▸ rfl⟩
  case cons a as hi =>
    rw [List.mapM_cons, List.forall₂_cons_left_iff]
    constructor
    case mp =>
      intro h
      obtain ⟨b, hb, h⟩ := bind_eq_ok h
      obtain ⟨cs, hc, h⟩ := bind_eq_ok h
      exact ⟨b, cs, hb, hi.mp hc, (Except.ok.inj h).symm⟩
    case mpr =>
      rintro ⟨b, cs, hb, hc, rfl⟩
      rw [bind_of_ok hb, bind_of_ok (hi.mpr hc)]
      rfl

variable {ε' : Type} {g : ε → ε'} {e' : ε'}

theorem mapError_eq_ok (h : x.mapError g = .ok a) : x = .ok a := by
  cases x
  case error => cases h
  case ok    => exact congrArg _ (Except.ok.inj h)

theorem mapError_eq_ok_iff : x.mapError g = .ok a ↔ x = .ok a :=
  ⟨mapError_eq_ok, fun h => h ▸ rfl⟩

theorem mapError_eq_error (h : x.mapError g = .error e') : ∃ e, x = .error e ∧ g e = e' := by
  cases x
  case error e => exact ⟨e, rfl, Except.error.inj h⟩
  case ok      => cases h

end Except

inductive TransactionType
  | credit
  | debit
  deriving DecidableEq

namespace TransactionType

def value : TransactionType → Text
  | credit => "CREDIT".toList
  | debit  => "DEBIT".toList

def ofValue (t : Text) : Option TransactionType :=
  if t = credit.value then some credit else if t = debit.value then some debit else none

theorem ofValue_value (type : TransactionType) : ofValue type.value = some type := by
  cases type <;> rfl

end TransactionType

-- JSON as a parser yields it.
abbrev Document :=
  { j : Json // j.WF }

-- A dictionary of JSON values as a parser yields them.
structure Members where
  fields : List (Text × Json)
  wf : ∀ f ∈ fields, f.2.WF

-- Why a model cannot be built: the field and the type of a validation error, or an exception that
-- is not turned into one.
inductive Invalid
  | field (loc type : Text)
  | overflow
  deriving DecidableEq

-- The arguments of the constructor of `EventPayload`.
structure RawEvent where
  eventId : Text
  accountId : Text
  type : Text
  amount : Decimal
  currency : Text
  eventTimestamp : DateTime
  metadata : Members

-- A payload that has passed the validation.
structure EventPayload where
  eventId : Text
  accountId : Text
  type : TransactionType
  amount : Decimal
  currency : Text
  eventTimestamp : Civil
  metadata : List (Text × Json)
  eventId_valid : eventId ≠ [] ∧ Text.Stripped eventId
  accountId_valid : accountId ≠ [] ∧ Text.Stripped accountId
  amount_pos : 0 < amount.value
  currency_valid : ∃ code, Text.Stripped code ∧ code.length = 3 ∧ currency = Text.upper code
  metadata_wf : (Json.obj metadata).WF
  metadata_stripped : ∀ f ∈ metadata, Text.Stripped f.1

namespace EventPayload

def validateId (loc value : Text) : Except Invalid { t : Text // t ≠ [] ∧ Text.Stripped t } :=
  if h : value.strip = [] then
    .error (.field loc "string_too_short".toList)
  else
    .ok ⟨value.strip, h, Text.strip_stripped value⟩

def validateType (value : Text) : Except Invalid TransactionType :=
  match TransactionType.ofValue value with
  | none      => .error (.field "type".toList "enum".toList)
  | some type => .ok type

def validateAmount (value : Decimal) : Except Invalid { d : Decimal // 0 < d.value } :=
  if h : value.isPos then
    .ok ⟨value, Decimal.isPos_iff.mp h⟩
  else
    .error (.field "amount".toList "greater_than".toList)

-- `normalize_currency` runs after the length has been checked.
def validateCurrency (value : Text) : Except Invalid
    { t : Text // ∃ code, Text.Stripped code ∧ code.length = 3 ∧ t = Text.upper code } :=
  if h : value.strip.length = 3 then
    .ok ⟨value.strip.upper, value.strip, Text.strip_stripped value, h, rfl⟩
  else if value.strip.length < 3 then
    .error (.field "currency".toList "string_too_short".toList)
  else
    .error (.field "currency".toList "string_too_long".toList)

-- A ValueError becomes a validation error, an OverflowError does not.
def validateEventTimestamp (value : DateTime) : Except Invalid Civil :=
  match Time.requireAwareUtc value with
  | .ok c             => .ok c
  | .error (.value _) => .error (.field "eventTimestamp".toList "value_error".toList)
  | .error .overflow  => .error .overflow

-- The normalisation of a time raises an OverflowError, which ends the validation whatever the other
-- fields are.
def overflows (value : DateTime) : Bool :=
  match Time.requireAwareUtc value with
  | .error .overflow => true
  | _                => false

def stripNames (fs : List (Text × Json)) : List (Text × Json) :=
  Json.dict (fs.map fun f => (f.1.strip, f.2))

theorem stripNames_wf {fs : List (Text × Json)} (h : ∀ f ∈ fs, f.2.WF) :
    (Json.obj (stripNames fs)).WF :=
  Json.wf_obj.mpr ⟨Json.dict_nodup _, fun _ hg =>
    have ⟨f, hf, he⟩ := List.mem_map.mp (Json.mem_dict hg)
    he ▸ h f hf⟩

theorem stripNames_stripped {fs : List (Text × Json)} : ∀ f ∈ stripNames fs, Text.Stripped f.1 :=
  fun _ hg =>
    have ⟨f, _, he⟩ := List.mem_map.mp (Json.mem_dict hg)
    he ▸ Text.strip_stripped f.1

theorem stripNames_of_stripped {fs : List (Text × Json)} (hn : (fs.map Prod.fst).Nodup)
    (hs : ∀ f ∈ fs, Text.Stripped f.1) : stripNames fs = fs := by
  have h : (fs.map fun f => (f.1.strip, f.2)) = fs :=
    by
    conv_rhs => rw [← List.map_id fs]
    exact List.map_congr_left fun f hf => by rw [Text.strip_eq_self (hs f hf), id]
  rw [stripNames, h, Json.dict_of_nodup hn]

def validateFields (raw : RawEvent) : Except Invalid EventPayload := do
  let eventId ← validateId "eventId".toList raw.eventId
  let accountId ← validateId "accountId".toList raw.accountId
  let type ← validateType raw.type
  let amount ← validateAmount raw.amount
  let currency ← validateCurrency raw.currency
  let eventTimestamp ← validateEventTimestamp raw.eventTimestamp
  return {
    eventId := eventId.val
    accountId := accountId.val
    type
    amount := amount.val
    currency := currency.val
    eventTimestamp
    metadata := stripNames raw.metadata.fields
    eventId_valid := eventId.property
    accountId_valid := accountId.property
    amount_pos := amount.property
    currency_valid := currency.property
    metadata_wf := stripNames_wf raw.metadata.wf
    metadata_stripped := stripNames_stripped
  }

def validate (raw : RawEvent) : Except Invalid EventPayload :=
  if overflows raw.eventTimestamp then .error .overflow else validateFields raw

-- The member of a model's JSON under its alias, or else under its name.
def member (fs : List (Text × Json)) (label name : String) : Option Json :=
  (fs.lookup label.toList).or (fs.lookup name.toList)

def textMember (fs : List (Text × Json)) (label name : String) : Except Invalid Text :=
  match member fs label name with
  | some (.str s) => .ok s
  | some _        => .error (.field label.toList "string_type".toList)
  | none          => .error (.field label.toList "missing".toList)

-- A float is read by the text that Python prints for it.
def decimalMember (fs : List (Text × Json)) (label name : String) : Except Invalid Decimal :=
  match member fs label name with
  | some (.int i)              => .ok ⟨i < 0, i.natAbs, 0⟩
  | some (.float (.finite s x)) => .ok (x.numeral s).decimal
  | some (.float _)            => .error (.field label.toList "finite_number".toList)
  | some (.str s)              =>
    match Decimal.ofText (s.strip.filter (· ≠ '_')) with
    | some d => .ok d
    | none   => .error (.field label.toList "decimal_parsing".toList)
  | some _                     => .error (.field label.toList "decimal_type".toList)
  | none                       => .error (.field label.toList "missing".toList)

def datetimeMember (fs : List (Text × Json)) (label name : String) : Except Invalid DateTime :=
  match textMember fs label name with
  | .error e => .error e
  | .ok s    =>
    match DateTime.fromIso s with
    | some d => .ok d
    | none   => .error (.field label.toList "datetime_from_date_parsing".toList)

theorem member_wf {fs : List (Text × Json)} {label name : String} {j : Json}
    (h : (Json.obj fs).WF) (hm : member fs label name = some j) : j.WF := by
  have hw := (Json.wf_obj.mp h).2
  rcases Option.or_eq_some_iff.mp hm with hm | ⟨_, hm⟩
  case inl => exact hw _ (List.mem_of_lookup hm)
  case inr => exact hw _ (List.mem_of_lookup hm)

-- Metadata defaults to the empty dictionary.
def objectMember (fs : List (Text × Json)) (label name : String) (h : (Json.obj fs).WF) :
    Except Invalid Members :=
  match hm : member fs label name with
  | none           => .ok ⟨[], by simp⟩
  | some (.obj gs) => .ok ⟨gs, (Json.wf_obj.mp (member_wf h hm)).2⟩
  | some _         => .error (.field label.toList "dict_type".toList)

-- What the constructor receives for the JSON of a request.
def decode : Document → Except Invalid RawEvent
  | ⟨.obj fs, h⟩ => do
    let eventId ← textMember fs "eventId" "event_id"
    let accountId ← textMember fs "accountId" "account_id"
    let type ← textMember fs "type" "type"
    let amount ← decimalMember fs "amount" "amount"
    let currency ← textMember fs "currency" "currency"
    let eventTimestamp ← datetimeMember fs "eventTimestamp" "event_timestamp"
    let metadata ← objectMember fs "metadata" "metadata" h
    return { eventId, accountId, type, amount, currency, eventTimestamp, metadata }
  | _ => .error (.field [] "model_attributes_type".toList)

-- The time of the event, when the JSON of a request has one that can be read.
def timestampMember (body : Document) : Option DateTime :=
  match body.val with
  | .obj fs => (datetimeMember fs "eventTimestamp" "event_timestamp").toOption
  | _       => none

def ofJson (body : Document) : Except Invalid EventPayload :=
  if (timestampMember body).any overflows then
    .error .overflow
  else do
    validate (← decode body)

-- `model_dump` by alias in JSON mode.
def modelFields (p : EventPayload) : List (Text × Json) :=
  [
    ("eventId".toList, .str p.eventId),
    ("accountId".toList, .str p.accountId),
    ("type".toList, .str p.type.value),
    ("amount".toList, .float (.ofDecimal p.amount)),
    ("currency".toList, .str p.currency),
    ("eventTimestamp".toList, .str (Time.formatUtc p.eventTimestamp)),
    ("metadata".toList, (Json.obj p.metadata).nullNonFinite)
  ]

def modelDump (p : EventPayload) : Json :=
  .obj p.modelFields

theorem modelFields_names (p : EventPayload) : (p.modelFields.map Prod.fst).Nodup := by
  have h : ["eventId".toList, "accountId".toList, "type".toList, "amount".toList,
      "currency".toList, "eventTimestamp".toList, "metadata".toList].Nodup := by decide
  exact h

theorem modelDump_wf (p : EventPayload) : p.modelDump.WF := by
  have hm := Json.nullNonFinite_wf p.metadata_wf
  refine Json.wf_obj.mpr ⟨p.modelFields_names, ?_⟩
  simp only [modelFields, List.mem_cons, List.not_mem_nil, or_false, forall_eq_or_imp, forall_eq]
  exact ⟨trivial, trivial, trivial, trivial, trivial, trivial, hm⟩

-- An amount within the range of a float is all that the encoding of a payload needs.
theorem modelDump_isStandard_iff {p : EventPayload} :
    p.modelDump.isStandard ↔ (Json.float (.ofDecimal p.amount)).isStandard := by
  have hm := Json.nullNonFinite_isStandard (.obj p.metadata)
  simp only [modelDump, Json.isStandard_obj, modelFields, List.mem_cons, List.not_mem_nil, or_false,
    forall_eq_or_imp, forall_eq]
  exact ⟨fun h => h.2.2.2.1, fun h => ⟨rfl, rfl, rfl, h, rfl, rfl, hm⟩⟩

theorem modelDump_isStandard {p : EventPayload} (h : (Binary64.ofDecimal p.amount).isSome) :
    p.modelDump.isStandard := by
  have ⟨x, hx⟩ := Option.isSome_iff_exists.mp h
  apply modelDump_isStandard_iff.mpr
  rw [Float64.ofDecimal, hx]
  rfl

-- The same seven facts: the amount as a number, the time as an instant, and the metadata as the
-- dictionaries that Python finds equal.
structure SameFacts (p q : EventPayload) : Prop where
  eventId : p.eventId = q.eventId
  accountId : p.accountId = q.accountId
  type : p.type = q.type
  amount : p.amount.value = q.amount.value
  currency : p.currency = q.currency
  eventTimestamp : p.eventTimestamp = q.eventTimestamp
  metadata : Json.pyEq (.obj p.metadata) (.obj q.metadata)

namespace SameFacts

variable {p q r : EventPayload}

theorem refl (p : EventPayload) : p.SameFacts p :=
  ⟨rfl, rfl, rfl, rfl, rfl, rfl, Json.pyEq_refl p.metadata_wf⟩

theorem symm (h : p.SameFacts q) : q.SameFacts p where
  eventId := h.eventId.symm
  accountId := h.accountId.symm
  type := h.type.symm
  amount := h.amount.symm
  currency := h.currency.symm
  eventTimestamp := h.eventTimestamp.symm
  metadata := Json.pyEq_symm p.metadata_wf q.metadata_wf h.metadata

theorem trans (h₁ : p.SameFacts q) (h₂ : q.SameFacts r) : p.SameFacts r where
  eventId := h₁.eventId.trans h₂.eventId
  accountId := h₁.accountId.trans h₂.accountId
  type := h₁.type.trans h₂.type
  amount := h₁.amount.trans h₂.amount
  currency := h₁.currency.trans h₂.currency
  eventTimestamp := h₁.eventTimestamp.trans h₂.eventTimestamp
  metadata := Json.pyEq_trans h₁.metadata h₂.metadata

end SameFacts

-- The three copies of `_same_event` differ in how they compare the time of the event.
def sameEvent (sameTime : Civil → Civil → Bool) (existing incoming : EventPayload) : Bool :=
  existing.eventId = incoming.eventId
  && existing.accountId = incoming.accountId
  && existing.type = incoming.type
  && existing.amount.eq incoming.amount
  && existing.currency = incoming.currency
  && sameTime existing.eventTimestamp incoming.eventTimestamp
  && Json.pyEq (.obj existing.metadata) (.obj incoming.metadata)

theorem sameEvent_iff {sameTime : Civil → Civil → Bool} (h : ∀ c d, sameTime c d ↔ c = d)
    {p q : EventPayload} : sameEvent sameTime p q ↔ p.SameFacts q where
  mp hs := by
    simp only [sameEvent, Bool.and_eq_true, decide_eq_true_eq, h] at hs
    have ⟨⟨⟨⟨⟨⟨h₁, h₂⟩, h₃⟩, h₄⟩, h₅⟩, h₆⟩, h₇⟩ := hs
    exact ⟨h₁, h₂, h₃, Decimal.eq_iff.mp h₄, h₅, h₆, h₇⟩
  mpr hs := by
    simp only [sameEvent, Bool.and_eq_true, decide_eq_true_eq, h]
    exact ⟨⟨⟨⟨⟨⟨hs.eventId, hs.accountId⟩, hs.type⟩, Decimal.eq_iff.mpr hs.amount⟩, hs.currency⟩,
      hs.eventTimestamp⟩, hs.metadata⟩

theorem validateId_self {loc t : Text} (h : t ≠ [] ∧ Text.Stripped t) :
    validateId loc t = .ok ⟨t, h⟩ := by
  have hs := Text.strip_eq_self h.2
  have hn : t.strip ≠ [] := by
    rw [hs]
    exact h.1
  rw [validateId, dif_neg hn]
  simp only [hs]

theorem validateType_value (type : TransactionType) : validateType type.value = .ok type := by
  rw [validateType, TransactionType.ofValue_value]

theorem validateAmount_self {d : Decimal} (h : 0 < d.value) : validateAmount d = .ok ⟨d, h⟩ :=
  dif_pos (Decimal.isPos_iff.mpr h)

theorem currency_strip (p : EventPayload) : p.currency.strip = p.currency := by
  have ⟨_, hs, _, he⟩ := p.currency_valid
  rw [he, Text.strip_eq_self hs.upper]

theorem currency_upper (p : EventPayload) : p.currency.upper = p.currency := by
  have ⟨_, _, _, he⟩ := p.currency_valid
  rw [he, Text.upper_upper]

-- A currency passes its own check again unless upper case has made it longer.
theorem validateCurrency_self {p : EventPayload} (h : p.currency.length = 3) :
    validateCurrency p.currency = .ok ⟨p.currency, p.currency_valid⟩ := by
  have hs : p.currency.strip.length = 3 := by rw [p.currency_strip, h]
  rw [validateCurrency, dif_pos hs]
  simp only [p.currency_strip, p.currency_upper]

theorem validateCurrency_error {p : EventPayload} (h : p.currency.length ≠ 3) :
    ∃ e, validateCurrency p.currency = .error e := by
  have hs : p.currency.strip.length ≠ 3 := by rwa [p.currency_strip]
  rw [validateCurrency, dif_neg hs]
  split
  case isTrue => exact ⟨_, rfl⟩
  case isFalse => exact ⟨_, rfl⟩

theorem validateEventTimestamp_utc (c : Civil) : validateEventTimestamp (.utc c) = .ok c := by
  rw [validateEventTimestamp, Time.requireAwareUtc_utc]

theorem overflows_utc (c : Civil) : overflows (.utc c) = false := by
  rw [overflows, Time.requireAwareUtc_utc]

theorem validate_of_not_overflows {raw : RawEvent} (h : overflows raw.eventTimestamp = false) :
    validate raw = validateFields raw :=
  if_neg (Bool.eq_false_iff.mp h)

theorem ofJson_of_not_overflows {body : Document}
    (h : (timestampMember body).any overflows = false) : ofJson body = decode body >>= validate :=
  if_neg (Bool.eq_false_iff.mp h)

-- The arguments of the constructor that are the fields of a payload.
def raw (p : EventPayload) : RawEvent where
  eventId := p.eventId
  accountId := p.accountId
  type := p.type.value
  amount := p.amount
  currency := p.currency
  eventTimestamp := .utc p.eventTimestamp
  metadata := ⟨p.metadata, (Json.wf_obj.mp p.metadata_wf).2⟩

theorem validate_raw {p : EventPayload} (h : p.currency.length = 3) : validate p.raw = .ok p := by
  have h₁ : validateId "eventId".toList p.raw.eventId = .ok ⟨p.eventId, p.eventId_valid⟩ :=
    validateId_self p.eventId_valid
  have h₂ : validateId "accountId".toList p.raw.accountId = .ok ⟨p.accountId, p.accountId_valid⟩ :=
    validateId_self p.accountId_valid
  have h₃ : validateType p.raw.type = .ok p.type := validateType_value _
  have h₄ : validateAmount p.raw.amount = .ok ⟨p.amount, p.amount_pos⟩ := validateAmount_self _
  have h₅ : validateCurrency p.raw.currency = .ok ⟨p.currency, p.currency_valid⟩ :=
    validateCurrency_self h
  have h₆ : validateEventTimestamp p.raw.eventTimestamp = .ok p.eventTimestamp :=
    validateEventTimestamp_utc _
  have h₇ : stripNames p.raw.metadata.fields = p.metadata :=
    stripNames_of_stripped (Json.wf_obj.mp p.metadata_wf).1 p.metadata_stripped
  rw [validate_of_not_overflows (overflows_utc _), validateFields, Except.bind_of_ok h₁,
    Except.bind_of_ok h₂, Except.bind_of_ok h₃, Except.bind_of_ok h₄, Except.bind_of_ok h₅,
    Except.bind_of_ok h₆]
  simp only [h₇]
  rfl

theorem validate_raw_error {p : EventPayload} (h : p.currency.length ≠ 3) :
    ∃ e, validate p.raw = .error e := by
  have h₁ : validateId "eventId".toList p.raw.eventId = .ok ⟨p.eventId, p.eventId_valid⟩ :=
    validateId_self p.eventId_valid
  have h₂ : validateId "accountId".toList p.raw.accountId = .ok ⟨p.accountId, p.accountId_valid⟩ :=
    validateId_self p.accountId_valid
  have h₃ : validateType p.raw.type = .ok p.type := validateType_value _
  have h₄ : validateAmount p.raw.amount = .ok ⟨p.amount, p.amount_pos⟩ := validateAmount_self _
  have ⟨e, he⟩ := validateCurrency_error h
  have h₅ : validateCurrency p.raw.currency = .error e := he
  refine ⟨e, ?_⟩
  rw [validate_of_not_overflows (overflows_utc _), validateFields, Except.bind_of_ok h₁,
    Except.bind_of_ok h₂, Except.bind_of_ok h₃, Except.bind_of_ok h₄, Except.bind_of_error h₅]

-- A credit of 150 dollars, for the examples.
def sample : EventPayload where
  eventId := "evt-001".toList
  accountId := "acct-123".toList
  type := .credit
  amount := ⟨false, 1500, -1⟩
  currency := "USD".toList
  eventTimestamp := ⟨⟨2026, 5, 15, by decide, by decide, by decide⟩, 14, 2, 11, 0, by decide,
    by decide, by decide, by decide⟩
  metadata := []
  eventId_valid := ⟨by decide, .of_strip (by decide)⟩
  accountId_valid := ⟨by decide, .of_strip (by decide)⟩
  amount_pos := Decimal.isPos_iff.mp rfl
  currency_valid := ⟨"USD".toList, .of_strip (by decide), rfl, by decide +kernel⟩
  metadata_wf := Json.wf_obj.mpr (by simp)
  metadata_stripped := by simp

-- A debit of 25.50 dollars from the same account.
def sampleDebit : EventPayload :=
  { sample with
    eventId := "evt-002".toList
    type := .debit
    amount := ⟨false, 2550, -2⟩
    eventId_valid := ⟨by decide, .of_strip (by decide)⟩
    amount_pos := Decimal.isPos_iff.mp rfl }

end EventPayload

-- The only status of an event: the Gateway stores what the Account Service has applied.
inductive EventStatus
  | applied
  deriving DecidableEq

namespace EventStatus

def value : EventStatus → Text
  | applied => "APPLIED".toList

def ofValue (t : Text) : Option EventStatus :=
  if t = applied.value then some applied else none

end EventStatus

structure EventRecord extends EventPayload where
  status : EventStatus
  createdAt : Civil
  updatedAt : Civil

structure TransactionRecord extends EventPayload where
  appliedAt : Civil
