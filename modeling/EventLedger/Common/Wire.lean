import EventLedger.Common.Contracts

namespace EventPayload

variable {p q : EventPayload} {x : Binary64}

-- The JSON body that the client sends for a payload.
def body (p : EventPayload) : Document :=
  ⟨p.modelDump, p.modelDump_wf⟩

-- What pydantic dumps of an object: it follows the values through 255 levels. The texts of JSON
-- here have no lone surrogates, which the encoder of the HTTP library would not take.
def pydanticDumps (j : Json) : Bool :=
  j.height ≤ 256

-- The body as it is built: the dump raises on some metadata, and the encoder of the HTTP library
-- on floats that JSON does not have.
def encode (dumps : Json → Bool) (p : EventPayload) : Option Document :=
  if dumps (.obj p.metadata) ∧ p.modelDump.isStandard then some p.body else none

theorem modelFields_wf (p : EventPayload) : (Json.obj p.modelFields).WF :=
  p.modelDump_wf

theorem body_eq (p : EventPayload) : p.body = ⟨.obj p.modelFields, p.modelFields_wf⟩ :=
  rfl

def sentMetadata (p : EventPayload) : List (Text × Json) :=
  p.metadata.map fun f => (f.1, f.2.nullNonFinite)

theorem nullNonFinite_metadata (p : EventPayload) :
    (Json.obj p.metadata).nullNonFinite = .obj p.sentMetadata :=
  Json.nullNonFinite_obj _

theorem sentMetadata_wf (p : EventPayload) : (Json.obj p.sentMetadata).WF :=
  p.nullNonFinite_metadata ▸ Json.nullNonFinite_wf p.metadata_wf

theorem sentMetadata_isStandard (p : EventPayload) : (Json.obj p.sentMetadata).isStandard :=
  p.nullNonFinite_metadata ▸ Json.nullNonFinite_isStandard _

theorem sentMetadata_stripped (p : EventPayload) : ∀ f ∈ p.sentMetadata, Text.Stripped f.1 := by
  intro f hf
  have ⟨g, hg, he⟩ := List.mem_map.mp hf
  exact he ▸ p.metadata_stripped g hg

-- The payload that the other side builds, for an amount that is sent as the number `x`.
def received (p : EventPayload) (x : Binary64) (h : 0 < x.readBack.value) : EventPayload :=
  { p with
    amount := x.readBack
    metadata := p.sentMetadata
    amount_pos := h
    metadata_wf := p.sentMetadata_wf
    metadata_stripped := p.sentMetadata_stripped }

-- The arguments of the constructor at the other side.
def sent (p : EventPayload) (x : Binary64) : RawEvent :=
  { p.raw with
    amount := x.readBack
    metadata := ⟨p.sentMetadata, (Json.wf_obj.mp p.sentMetadata_wf).2⟩ }

theorem amount_neg (p : EventPayload) : p.amount.neg = false := by
  have h := Decimal.isPos_iff.mpr p.amount_pos
  simp only [Decimal.isPos, Bool.and_eq_true, Bool.not_eq_true'] at h
  exact h.1

theorem amountMember_body (p : EventPayload) :
    member p.modelFields "amount" "amount" = some (.float (.ofDecimal p.amount)) :=
  rfl

theorem datetimeMember_body (p : EventPayload) :
    datetimeMember p.modelFields "eventTimestamp" "event_timestamp" =
    .ok (.utc p.eventTimestamp) := by
  have h : textMember p.modelFields "eventTimestamp" "event_timestamp" =
      .ok (Time.formatUtc p.eventTimestamp) := rfl
  simp only [datetimeMember, h, Time.fromIso_formatUtc]

theorem objectMember_body (p : EventPayload) :
    objectMember p.modelFields "metadata" "metadata" p.modelFields_wf =
    .ok ⟨p.sentMetadata, (Json.wf_obj.mp p.sentMetadata_wf).2⟩ := by
  have h : member p.modelFields "metadata" "metadata" = some (.obj p.sentMetadata) :=
    congrArg some p.nullNonFinite_metadata
  unfold objectMember
  split
  case h_1 hn => simp [hn] at h
  case h_2 fs hf =>
    have he := Json.obj.inj (Option.some.inj (hf.symm.trans h))
    simp only [he]
  case h_3 hn hf => exact absurd (Option.some.inj (hf.symm.trans h)) (hn _)

theorem decode_body (h : Binary64.ofDecimal p.amount = some x) :
    decode p.body = .ok (p.sent x) := by
  have h₁ : textMember p.modelFields "eventId" "event_id" = .ok p.eventId := rfl
  have h₂ : textMember p.modelFields "accountId" "account_id" = .ok p.accountId := rfl
  have h₃ : textMember p.modelFields "type" "type" = .ok p.type.value := rfl
  have h₄ : decimalMember p.modelFields "amount" "amount" = .ok x.readBack := by
    simp only [decimalMember, amountMember_body, Float64.ofDecimal, h, p.amount_neg]
    rfl
  have h₅ : textMember p.modelFields "currency" "currency" = .ok p.currency := rfl
  rw [body_eq, decode, Except.bind_of_ok h₁, Except.bind_of_ok h₂, Except.bind_of_ok h₃,
    Except.bind_of_ok h₄, Except.bind_of_ok h₅, Except.bind_of_ok p.datetimeMember_body,
    Except.bind_of_ok p.objectMember_body]
  rfl

-- An amount that is too large for a number has no text in JSON, and none is read from it.
theorem decode_body_error (h : Binary64.ofDecimal p.amount = none) :
    ∃ e, decode p.body = .error e := by
  have h₁ : textMember p.modelFields "eventId" "event_id" = .ok p.eventId := rfl
  have h₂ : textMember p.modelFields "accountId" "account_id" = .ok p.accountId := rfl
  have h₃ : textMember p.modelFields "type" "type" = .ok p.type.value := rfl
  have h₄ : decimalMember p.modelFields "amount" "amount" =
      .error (.field "amount".toList "finite_number".toList) := by
    simp only [decimalMember, amountMember_body, Float64.ofDecimal, h]
  exact ⟨_, by rw [body_eq, decode, Except.bind_of_ok h₁, Except.bind_of_ok h₂,
    Except.bind_of_ok h₃, Except.bind_of_error h₄]⟩

theorem validate_sent (hc : p.currency.length = 3) (hx : 0 < x.readBack.value) :
    validate (p.sent x) = .ok (p.received x hx) :=
  validate_raw (p := p.received x hx) hc

theorem validate_sent_error (h : ¬(p.currency.length = 3 ∧ 0 < x.readBack.value)) :
    ∃ e, validate (p.sent x) = .error e := by
  by_cases hx : 0 < x.readBack.value
  case pos =>
    have hc : p.currency.length ≠ 3 := fun hc => h ⟨hc, hx⟩
    exact validate_raw_error (p := p.received x hx) hc
  case neg =>
    have h₁ : validateId "eventId".toList (p.sent x).eventId = .ok ⟨p.eventId, p.eventId_valid⟩ :=
      validateId_self p.eventId_valid
    have h₂ : validateId "accountId".toList (p.sent x).accountId =
        .ok ⟨p.accountId, p.accountId_valid⟩ := validateId_self p.accountId_valid
    have h₃ : validateType (p.sent x).type = .ok p.type := validateType_value _
    have h₄ : validateAmount (p.sent x).amount =
        .error (.field "amount".toList "greater_than".toList) :=
      dif_neg fun hp => hx (Decimal.isPos_iff.mp hp)
    exact ⟨_, by rw [validate_of_not_overflows (overflows_utc _), validateFields,
      Except.bind_of_ok h₁, Except.bind_of_ok h₂, Except.bind_of_ok h₃, Except.bind_of_error h₄]⟩

theorem timestampMember_body (p : EventPayload) :
    timestampMember p.body = some (.utc p.eventTimestamp) := by
  simp only [timestampMember, body_eq, datetimeMember_body, Except.toOption]

-- What the other side makes of the body of a payload.
theorem ofJson_body_iff : ofJson p.body = .ok q ↔ p.currency.length = 3 ∧
    ∃ x h, Binary64.ofDecimal p.amount = some x ∧ q = p.received x h := by
  have ho : (timestampMember p.body).any overflows = false := by
    rw [timestampMember_body, Option.any_some, overflows_utc]
  rw [ofJson_of_not_overflows ho]
  cases hx : Binary64.ofDecimal p.amount
  case none =>
    obtain ⟨e, he⟩ := decode_body_error hx
    rw [Except.bind_of_error he]
    simp
  case some x =>
    rw [Except.bind_of_ok (decode_body hx)]
    by_cases h : p.currency.length = 3 ∧ 0 < x.readBack.value
    case pos =>
      rw [validate_sent h.1 h.2, Except.ok.injEq]
      refine ⟨fun he => ⟨h.1, x, h.2, rfl, he.symm⟩, fun ⟨_, y, hy, he, hq⟩ => ?_⟩
      cases he
      exact hq.symm
    case neg =>
      obtain ⟨e, he⟩ := validate_sent_error h
      rw [he]
      refine ⟨nofun, fun ⟨hc, y, hy, he, _⟩ => ?_⟩
      cases he
      exact absurd ⟨hc, hy⟩ h

theorem received_sameFacts_iff {h : 0 < x.readBack.value} : (p.received x h).SameFacts p ↔
    p.amount.value = x.shortest.value ∧ (Json.obj p.metadata).isStandard where
  mp hs := by
    refine ⟨by rw [← x.readBack_value]; exact hs.amount.symm, ?_⟩
    exact Json.isStandard_of_pyEq p.sentMetadata_wf p.metadata_wf hs.metadata
      p.sentMetadata_isStandard
  mpr hs := {
    eventId := rfl
    accountId := rfl
    type := rfl
    amount := by rw [hs.1, ← x.readBack_value]; rfl
    currency := rfl
    eventTimestamp := rfl
    metadata := by
      have he : (Json.obj p.sentMetadata) = .obj p.metadata := by
        rw [← nullNonFinite_metadata, Json.nullNonFinite_of_isStandard hs.2]
      change Json.pyEq (.obj p.sentMetadata) _
      rw [he]
      exact Json.pyEq_refl p.metadata_wf
  }

theorem encode_eq_some {dumps : Json → Bool} {body : Document} : p.encode dumps = some body ↔
    dumps (.obj p.metadata) ∧ p.modelDump.isStandard ∧ p.body = body := by
  simp only [encode, Option.ite_none_right_eq_some, Option.some.injEq, and_assoc]

-- A payload comes back as it was sent just if its metadata can be dumped, its currency still has
-- three characters, its amount is the shortest decimal of a number, and its metadata is standard
-- JSON.
theorem encode_sameFacts_iff (dumps : Json → Bool) (p : EventPayload) :
    (∃ body q, p.encode dumps = some body ∧ ofJson body = .ok q ∧ q.SameFacts p) ↔
    dumps (.obj p.metadata) ∧ p.currency.length = 3 ∧
      (∃ x : Binary64, p.amount.value = x.shortest.value) ∧ (Json.obj p.metadata).isStandard where
  mp h := by
    obtain ⟨body, q, he, hq, hs⟩ := h
    obtain ⟨hd, _, rfl⟩ := encode_eq_some.mp he
    obtain ⟨hc, x, _, _, rfl⟩ := ofJson_body_iff.mp hq
    obtain ⟨hx, hm⟩ := received_sameFacts_iff.mp hs
    exact ⟨hd, hc, ⟨x, hx⟩, hm⟩
  mpr h := by
    obtain ⟨hd, hc, ⟨x, hx⟩, hm⟩ := h
    have hp : 0 < x.readBack.value := by
      rw [x.readBack_value, ← hx]
      exact p.amount_pos
    have ho : Binary64.ofDecimal p.amount = some x :=
      (Binary64.ofDecimal_congr (congrArg abs hx)).trans x.ofDecimal_shortest
    have hstd : p.modelDump.isStandard := modelDump_isStandard (ho ▸ rfl)
    exact ⟨p.body, p.received x hp, encode_eq_some.mpr ⟨hd, hstd, rfl⟩,
      ofJson_body_iff.mpr ⟨hc, x, hp, ho, rfl⟩, received_sameFacts_iff.mpr ⟨hx, hm⟩⟩

-- A credit with more digits than a float keeps.
def wideCredit : EventPayload :=
  { sample with
    amount := ⟨false, 100000000000000001, 0⟩
    amount_pos := Decimal.isPos_iff.mp rfl }

theorem encode_not_sameFacts : ¬∀ p, ∃ body q, p.encode pydanticDumps = some body ∧
    ofJson body = .ok q ∧ q.SameFacts p := by
  intro h
  obtain ⟨body, q, he, hq, hs⟩ := h wideCredit
  obtain ⟨_, _, rfl⟩ := encode_eq_some.mp he
  obtain ⟨_, x, _, _, rfl⟩ := ofJson_body_iff.mp hq
  obtain ⟨hx, _⟩ := received_sameFacts_iff.mp hs
  have hw : (Binary64.ofDecimal wideCredit.amount).map Binary64.shortest = some ⟨false, 1, 17⟩ := by
    decide +kernel
  rw [(Binary64.ofDecimal_congr (congrArg abs hx)).trans x.ofDecimal_shortest] at hw
  rw [Option.some.inj hw] at hx
  norm_num [wideCredit, Decimal.value, Decimal.signed] at hx

end EventPayload
