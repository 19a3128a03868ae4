import EventLedger.Base.JsonPath
import EventLedger.Common.Responses
import EventLedger.Common.Wire

-- What one service sends and the other reads back, it would send in the same words again.
namespace EventPayload

variable {p p' q : EventPayload} {fs gs : List (Text × Json)} {label name : String} {x : Binary64}

-- The members of a payload are found whatever follows them.
theorem member_append (h : (fs.lookup label.toList).isSome) :
    member (fs ++ gs) label name = member fs label name := by
  have ⟨j, hj⟩ := Option.isSome_iff_exists.mp h
  simp [member, List.lookup_append, hj]

theorem objectMember_congr (h : member fs label name = member gs label name)
    (hf : (Json.obj fs).WF) (hg : (Json.obj gs).WF) :
    objectMember fs label name hf = objectMember gs label name hg := by
  unfold objectMember
  split
  case h_1 hn =>
    split
    case h_1       => rfl
    case h_2 ho    => simp [← h, hn] at ho
    case h_3 ho    => simp [← h, hn] at ho
  case h_2 ms hn =>
    split
    case h_1 ho    => simp [← h, hn] at ho
    case h_2 ms' ho =>
      have he := Json.obj.inj (Option.some.inj (hn.symm.trans (h.trans ho)))
      simp only [he]
    case h_3 hno ho => exact absurd (Option.some.inj (ho.symm.trans (h.symm.trans hn))) (hno _)
  case h_3 hno hn =>
    split
    case h_1 ho    => simp [← h, hn] at ho
    case h_2 ho    => exact absurd (Option.some.inj (hn.symm.trans (h.trans ho))) (hno _)
    case h_3       => rfl

theorem modelFields_lookup (p : EventPayload) : ∀ label ∈ ["eventId", "accountId", "type", "amount",
    "currency", "eventTimestamp", "metadata"], (p.modelFields.lookup label.toList).isSome := by
  simp only [List.mem_cons, List.not_mem_nil, or_false, forall_eq_or_imp, forall_eq]
  exact ⟨rfl, rfl, rfl, rfl, rfl, rfl, rfl⟩

-- A record is read as the payload that it extends.
theorem ofJson_append (p : EventPayload) (gs : List (Text × Json))
    (h : (Json.obj (p.modelFields ++ gs)).WF) :
    ofJson ⟨.obj (p.modelFields ++ gs), h⟩ = ofJson p.body := by
  have hm : ∀ label ∈ ["eventId", "accountId", "type", "amount", "currency", "eventTimestamp",
      "metadata"], ∀ name, member (p.modelFields ++ gs) label name =
        member p.modelFields label name :=
    fun label hl _ => member_append (p.modelFields_lookup label hl)
  have ho := objectMember_congr (hm "metadata" (by simp) "metadata") h p.modelFields_wf
  have hd : decode ⟨.obj (p.modelFields ++ gs), h⟩ = decode p.body := by
    simp only [body_eq, decode, textMember, decimalMember, datetimeMember, ho,
      hm "eventId" (by simp), hm "accountId" (by simp), hm "type" (by simp), hm "amount" (by simp),
      hm "currency" (by simp), hm "eventTimestamp" (by simp)]
  have ht : timestampMember ⟨.obj (p.modelFields ++ gs), h⟩ = timestampMember p.body := by
    simp only [timestampMember, body_eq, datetimeMember, textMember, hm "eventTimestamp" (by simp)]
  rw [ofJson, ofJson, hd, ht]

-- What has been sent once has the form in which it is sent.
theorem nullNonFinite_nullNonFinite (j : Json) : j.nullNonFinite.nullNonFinite = j.nullNonFinite :=
  Json.nullNonFinite_of_isStandard j.nullNonFinite_isStandard

theorem sentMetadata_received (p : EventPayload) (h : 0 < x.readBack.value) :
    (p.received x h).sentMetadata = p.sentMetadata := by
  have hr := (p.received x h).nullNonFinite_metadata
  have hn := p.nullNonFinite_metadata
  have he : (Json.obj (p.received x h).metadata).nullNonFinite = .obj p.sentMetadata := by
    change (Json.obj p.sentMetadata).nullNonFinite = _
    rw [← hn, nullNonFinite_nullNonFinite]
  exact Json.obj.inj (hr.symm.trans he)

theorem received_received (p : EventPayload) (h : 0 < x.readBack.value) :
    (p.received x h).received x h = p.received x h := by
  have hm := sentMetadata_received p h
  simp only [received] at hm ⊢
  simp only [hm]

-- The wire changes a payload at most once: what has been received is received again as it is.
theorem ofJson_body_stable (h : ofJson p.body = .ok q) : ofJson q.body = .ok q := by
  obtain ⟨hc, x, hx, _, rfl⟩ := ofJson_body_iff.mp h
  exact ofJson_body_iff.mpr ⟨hc, x, hx, x.ofDecimal_readBack, (p.received_received hx).symm⟩

-- The same facts are the same facts on the wire.
theorem SameFacts.ofJson_body (h : p.SameFacts p') (hq : ofJson p.body = .ok q) :
    ∃ q', ofJson p'.body = .ok q' ∧ q.SameFacts q' := by
  obtain ⟨hc, x, hx, ho, rfl⟩ := ofJson_body_iff.mp hq
  have ho' : Binary64.ofDecimal p'.amount = some x :=
    (Binary64.ofDecimal_congr (congrArg abs h.amount.symm)).trans ho
  have hm := Json.nullNonFinite_pyEq h.metadata
  rw [p.nullNonFinite_metadata, p'.nullNonFinite_metadata] at hm
  exact ⟨p'.received x hx, ofJson_body_iff.mpr ⟨h.currency ▸ hc, x, hx, ho', rfl⟩,
    h.eventId, h.accountId, h.type, rfl, h.currency, h.eventTimestamp, hm⟩

theorem modelFields_received (h : 0 < x.readBack.value)
    (ho : Binary64.ofDecimal p.amount = some x) :
    (p.received x h).modelFields = p.modelFields := by
  have ha : Float64.ofDecimal x.readBack = Float64.ofDecimal p.amount := by
    simp only [Float64.ofDecimal, ho, x.ofDecimal_readBack, p.amount_neg]
    exact congrArg (Float64.finite · x) (Binary64.numeral_neg false x)
  have hm : (Json.obj p.sentMetadata).nullNonFinite = (Json.obj p.metadata).nullNonFinite := by
    rw [← p.nullNonFinite_metadata, nullNonFinite_nullNonFinite]
  simp only [modelFields, received, ha, hm]

end EventPayload

open EventPayload (member textMember decimalMember datetimeMember)

namespace TransactionRecord

variable {r : TransactionRecord} {q : EventPayload}

-- A record whose payload can be sent.
def Sendable (r : TransactionRecord) : Prop :=
  ∃ q, EventPayload.ofJson r.toEventPayload.body = .ok q

theorem ofJson_modelFields (h : EventPayload.ofJson r.toEventPayload.body = .ok q) :
    ofJson ⟨.obj r.modelFields, r.modelFields_wf⟩ = .ok { q with appliedAt := r.appliedAt } := by
  have hp : EventPayload.ofJson ⟨.obj r.modelFields, r.modelFields_wf⟩ = .ok q :=
    (r.toEventPayload.ofJson_append _ r.modelFields_wf).trans h
  have ht : textMember r.modelFields "appliedAt" "applied_at" =
      .ok (Time.formatUtc r.appliedAt) := rfl
  have hd : datetimeMember r.modelFields "appliedAt" "applied_at" = .ok (.utc r.appliedAt) := by
    simp only [datetimeMember, ht, Time.fromIso_formatUtc]
  rw [ofJson, Except.bind_of_ok hp]
  simp only [Except.bind_of_ok hd, Time.requireAwareUtc_utc]
  rfl

-- The record that is read back is written as the one that was sent.
theorem ofJson_modelFields_same (h : r.Sendable) : ∃ r' : TransactionRecord,
    ofJson ⟨.obj r.modelFields, r.modelFields_wf⟩ = .ok r' ∧ r'.modelFields = r.modelFields := by
  have ⟨q, hq⟩ := h
  refine ⟨_, ofJson_modelFields hq, ?_⟩
  obtain ⟨_, x, hx, ho, rfl⟩ := EventPayload.ofJson_body_iff.mp hq
  have hm := EventPayload.modelFields_received hx ho
  simp only [modelFields, hm]

end TransactionRecord

namespace BalanceResponse

-- What a response is like when its texts have been stripped.
structure Trimmed (b : BalanceResponse) : Prop where
  accountId : b.accountId.strip = b.accountId
  currency : ∀ c ∈ b.currency, Text.strip c = c

variable {b : BalanceResponse} {x : Binary64} {gs : List (Text × Json)}

def relayed (b : BalanceResponse) (x : Binary64) : BalanceResponse :=
  { b with balance := (x.numeral b.balance.neg).decimal }

theorem modelFields_relayed (h : Binary64.ofDecimal b.balance = some x) :
    (b.relayed x).modelFields = b.modelFields := by
  have hb : Float64.ofDecimal (x.numeral b.balance.neg).decimal = Float64.ofDecimal b.balance := by
    rw [Float64.ofDecimal_numeral]
    simp only [Float64.ofDecimal, h]
  simp only [modelFields, relayed, hb]

theorem modelFields_isStandard_iff : (Json.obj b.modelFields).isStandard ↔
    (Binary64.ofDecimal b.balance).isSome := by
  have hc : (b.currency.elim Json.null Json.str).isStandard := by cases b.currency <;> rfl
  have hb : (Json.float (.ofDecimal b.balance)).isStandard ↔
      (Binary64.ofDecimal b.balance).isSome := by
    simp only [Float64.ofDecimal]
    cases Binary64.ofDecimal b.balance
    case none   => exact iff_of_false (by simp [Json.isStandard, Float64.isFinite]) (by simp)
    case some x => exact iff_of_true rfl rfl
  simp only [Json.isStandard_obj, modelFields, List.mem_cons, List.not_mem_nil, or_false,
    forall_eq_or_imp, forall_eq, hc, hb, and_true]
  exact ⟨fun h => h.2, fun h => ⟨rfl, h⟩⟩

theorem ofFields_modelFields (ht : b.Trimmed) (h : Binary64.ofDecimal b.balance = some x) :
    ofFields (b.modelFields ++ gs) = .ok (b.relayed x) := by
  have h₁ : textMember (b.modelFields ++ gs) "accountId" "account_id" = .ok b.accountId := rfl
  have h₂ : decimalMember (b.modelFields ++ gs) "balance" "balance" =
      .ok (x.numeral b.balance.neg).decimal := by
    have hm : member (b.modelFields ++ gs) "balance" "balance" =
        some (.float (.ofDecimal b.balance)) := rfl
    simp only [decimalMember, hm, Float64.ofDecimal, h]
  have h₃ : currencyMember (b.modelFields ++ gs) = .ok b.currency := by
    have hm : member (b.modelFields ++ gs) "currency" "currency" =
        some (b.currency.elim .null .str) := rfl
    simp only [currencyMember, hm]
    cases hc : b.currency
    case none   => rfl
    case some c => simp only [Option.elim, ht.currency c hc]
  rw [ofFields, Except.bind_of_ok h₁, Except.bind_of_ok h₂, Except.bind_of_ok h₃, ht.accountId]
  rfl

-- The balance that is read back is written as the one that was sent.
theorem ofJson_modelFields (ht : b.Trimmed) (h : Binary64.ofDecimal b.balance = some x) :
    ofJson ⟨.obj b.modelFields, b.modelFields_wf⟩ = .ok (b.relayed x) := by
  have hf : ofFields (b.modelFields ++ []) = .ok (b.relayed x) := ofFields_modelFields ht h
  rw [List.append_nil] at hf
  exact hf

end BalanceResponse

namespace AccountDetailsResponse

variable {d : AccountDetailsResponse} {x : Binary64}

-- Every record of a list is read back as one that is written in the same words.
theorem exists_forall₂ {rs : List TransactionRecord} (h : ∀ r ∈ rs, r.Sendable) :
    ∃ rs' : List TransactionRecord,
      List.Forall₂ (fun j r' => ∀ hj, TransactionRecord.ofJson ⟨j, hj⟩ = .ok r')
        (rs.map fun r => .obj r.modelFields) rs' ∧
      rs'.map (·.modelFields) = rs.map (·.modelFields) := by
  induction rs
  case nil => exact ⟨[], .nil, rfl⟩
  case cons r rs hi =>
    rw [List.forall_mem_cons] at h
    have ⟨r', hr, hm⟩ := TransactionRecord.ofJson_modelFields_same h.1
    have ⟨rs', hrs, hms⟩ := hi h.2
    exact ⟨r' :: rs', .cons (fun _ => hr) hrs, by simp [hm, hms]⟩

theorem recentTransactionsMember_modelFields (h : ∀ r ∈ d.recentTransactions, r.Sendable) :
    ∃ rs, recentTransactionsMember d.modelFields d.modelFields_wf = .ok rs ∧
      rs.map (·.modelFields) = d.recentTransactions.map (·.modelFields) := by
  have ⟨rs, hr, hm⟩ := exists_forall₂ h
  have hl : member d.modelFields "recentTransactions" "recent_transactions" =
      some (.arr (d.recentTransactions.map fun r => .obj r.modelFields)) := rfl
  refine ⟨rs, ?_, hm⟩
  unfold recentTransactionsMember
  split
  case h_1 xs hx =>
    cases hl.symm.trans hx
    refine Except.mapM_eq_ok_iff.mpr ?_
    rw [← List.attach_map_subtype_val (d.recentTransactions.map _), List.forall₂_map_left_iff] at hr
    exact hr.imp fun x _ hx => hx _
  case h_2 hn hx => exact absurd (Option.some.inj (hx.symm.trans hl)) (hn _)
  case h_3 hx    => cases hl.symm.trans hx

-- The details that are read back are written as those that were sent.
theorem ofJson_modelFields (ht : d.toBalanceResponse.Trimmed)
    (hx : Binary64.ofDecimal d.balance = some x) (h : ∀ r ∈ d.recentTransactions, r.Sendable) :
    ∃ d', ofJson ⟨.obj d.modelFields, d.modelFields_wf⟩ = .ok d' ∧
      d'.modelFields = d.modelFields := by
  have ⟨rs, hr, hm⟩ := recentTransactionsMember_modelFields h
  have hb : BalanceResponse.ofFields d.modelFields = .ok (d.toBalanceResponse.relayed x) :=
    BalanceResponse.ofFields_modelFields ht hx
  have hf := BalanceResponse.modelFields_relayed (b := d.toBalanceResponse) hx
  have hj : rs.map (fun r => Json.obj r.modelFields) =
      d.recentTransactions.map fun r => .obj r.modelFields := by
    have hj := congrArg (List.map Json.obj) hm
    rwa [List.map_map, List.map_map] at hj
  refine ⟨{ d.toBalanceResponse.relayed x with recentTransactions := rs }, ?_, ?_⟩
  case refine_1 =>
    rw [ofJson, Except.bind_of_ok hb, Except.bind_of_ok hr]
    rfl
  case refine_2 => simp only [modelFields, hf, hj]

end AccountDetailsResponse
