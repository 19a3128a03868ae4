import EventLedger.Common.Contracts

structure BalanceResponse where
  accountId : Text
  balance : Decimal
  currency : Option Text

structure AccountDetailsResponse extends BalanceResponse where
  recentTransactions : List TransactionRecord

open EventPayload (member textMember decimalMember datetimeMember)

namespace EventRecord

def modelFields (r : EventRecord) : List (Text × Json) :=
  r.toEventPayload.modelFields ++
    [
      ("status".toList, .str r.status.value),
      ("createdAt".toList, .str (Time.formatUtc r.createdAt)),
      ("updatedAt".toList, .str (Time.formatUtc r.updatedAt))
    ]

theorem modelFields_isStandard {r : EventRecord} (h : r.toEventPayload.modelDump.isStandard) :
    (Json.obj r.modelFields).isStandard := by
  have hp := Json.isStandard_obj.mp h
  refine Json.isStandard_obj.mpr fun f hf => ?_
  rcases List.mem_append.mp hf with hf | hf
  case inl => exact hp f hf
  case inr =>
    simp only [List.mem_cons, List.not_mem_nil, or_false] at hf
    rcases hf with rfl | rfl | rfl <;> rfl

end EventRecord

namespace TransactionRecord

def modelFields (r : TransactionRecord) : List (Text × Json) :=
  r.toEventPayload.modelFields ++ [("appliedAt".toList, .str (Time.formatUtc r.appliedAt))]

theorem modelFields_wf (r : TransactionRecord) : (Json.obj r.modelFields).WF := by
  have hn : ((r.toEventPayload.modelFields ++
      [("appliedAt".toList, Json.str (Time.formatUtc r.appliedAt))]).map Prod.fst).Nodup := by
    have h : ["eventId".toList, "accountId".toList, "type".toList, "amount".toList,
        "currency".toList, "eventTimestamp".toList, "metadata".toList,
        "appliedAt".toList].Nodup := by decide
    exact h
  refine Json.wf_obj.mpr ⟨hn, fun f hf => ?_⟩
  rcases List.mem_append.mp hf with hf | hf
  case inl => exact (Json.wf_obj.mp r.modelDump_wf).2 f hf
  case inr => exact List.mem_singleton.mp hf ▸ trivial

theorem modelFields_isStandard (r : TransactionRecord)
    (h : (Binary64.ofDecimal r.amount).isSome) : (Json.obj r.modelFields).isStandard := by
  obtain ⟨x, hx⟩ := Option.isSome_iff_exists.mp h
  have ha : (Json.float (.ofDecimal r.amount)).isStandard := by
    simp only [Float64.ofDecimal, hx]
    rfl
  have hp := Json.isStandard_obj.mp (EventPayload.modelDump_isStandard_iff.mpr ha)
  refine Json.isStandard_obj.mpr fun f hf => ?_
  rcases List.mem_append.mp hf with hf | hf
  case inl => exact hp f hf
  case inr => exact List.mem_singleton.mp hf ▸ rfl

-- A time without an offset can be read but not written, so that it is an error as well.
def ofJson (body : Document) : Except Invalid TransactionRecord := do
  let payload ← EventPayload.ofJson body
  let appliedAt ← match body.val with
    | .obj fs => datetimeMember fs "appliedAt" "applied_at"
    | _       => .error (.field [] "model_attributes_type".toList)
  match Time.requireAwareUtc appliedAt with
  | .ok appliedAt => return { payload with appliedAt }
  | .error _      => .error (.field "appliedAt".toList "value_error".toList)

end TransactionRecord

namespace BalanceResponse

def modelFields (b : BalanceResponse) : List (Text × Json) :=
  [
    ("accountId".toList, .str b.accountId),
    ("balance".toList, .float (.ofDecimal b.balance)),
    ("currency".toList, b.currency.elim .null .str)
  ]

theorem members_wf (b : BalanceResponse) : ∀ f ∈ b.modelFields, f.2.WF := by
  have hc : (b.currency.elim Json.null Json.str).WF := by cases b.currency <;> trivial
  simp only [modelFields, List.mem_cons, List.not_mem_nil, or_false, forall_eq_or_imp, forall_eq]
  exact ⟨trivial, trivial, hc⟩

theorem modelFields_wf (b : BalanceResponse) : (Json.obj b.modelFields).WF := by
  have hn : ["accountId".toList, "balance".toList, "currency".toList].Nodup := by decide
  exact Json.wf_obj.mpr ⟨hn, b.members_wf⟩

-- The currency may be left out.
def currencyMember (fs : List (Text × Json)) : Except Invalid (Option Text) :=
  match member fs "currency" "currency" with
  | none          => .ok none
  | some .null    => .ok none
  | some (.str s) => .ok (some s.strip)
  | some _        => .error (.field "currency".toList "string_type".toList)

def ofFields (fs : List (Text × Json)) : Except Invalid BalanceResponse := do
  let accountId ← textMember fs "accountId" "account_id"
  let balance ← decimalMember fs "balance" "balance"
  let currency ← currencyMember fs
  return { accountId := accountId.strip, balance, currency }

def ofJson : Document → Except Invalid BalanceResponse
  | ⟨.obj fs, _⟩ => ofFields fs
  | _            => .error (.field [] "model_attributes_type".toList)

end BalanceResponse

namespace AccountDetailsResponse

def modelFields (d : AccountDetailsResponse) : List (Text × Json) :=
  d.toBalanceResponse.modelFields ++
    [("recentTransactions".toList, .arr (d.recentTransactions.map fun r => .obj r.modelFields))]

theorem modelFields_wf (d : AccountDetailsResponse) : (Json.obj d.modelFields).WF := by
  have hn : ["accountId".toList, "balance".toList, "currency".toList,
      "recentTransactions".toList].Nodup := by decide
  refine Json.wf_obj.mpr ⟨hn, fun f hf => ?_⟩
  rcases List.mem_append.mp hf with hf | hf
  case inl => exact d.members_wf f hf
  case inr =>
    rw [List.mem_singleton.mp hf, Json.wf_arr, List.forall_mem_map]
    exact fun r _ => r.modelFields_wf

def recentTransactionsMember (fs : List (Text × Json)) (h : (Json.obj fs).WF) :
    Except Invalid (List TransactionRecord) :=
  match hm : member fs "recentTransactions" "recent_transactions" with
  | some (.arr xs) => xs.attach.mapM fun x =>
    TransactionRecord.ofJson ⟨x.val, Json.wf_arr.mp (EventPayload.member_wf h hm) x.val x.property⟩
  | some _         => .error (.field "recentTransactions".toList "list_type".toList)
  | none           => .error (.field "recentTransactions".toList "missing".toList)

def ofJson : Document → Except Invalid AccountDetailsResponse
  | ⟨.obj fs, h⟩ => do
    let balance ← BalanceResponse.ofFields fs
    let recentTransactions ← recentTransactionsMember fs h
    return { balance with recentTransactions }
  | _            => .error (.field [] "model_attributes_type".toList)

end AccountDetailsResponse
