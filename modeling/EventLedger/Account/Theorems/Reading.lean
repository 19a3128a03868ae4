import EventLedger.Account.Main
import EventLedger.Account.Theorems.Arrival
import EventLedger.Account.Theorems.Routes
import EventLedger.Common.Relay

namespace Account

open Http

variable {order : RowOrder TransactionRow} {t : Transactions} {accountId : Text} {limit : ℕ}
variable {now : Civil} {q : EventPayload} {s : State}

-- Every row is that of a payload in the form that the wire gives it.
def Received (t : Transactions) : Prop :=
  ∀ row ∈ t.rows, ∃ now q, row = insertedRow now q ∧ EventPayload.ofJson q.body = .ok q

theorem currency_of_received (h : EventPayload.ofJson q.body = .ok q) : q.currency.length = 3 :=
  (EventPayload.ofJson_body_iff.mp h).1

theorem Received.readable (h : Received t) :
    ∀ row ∈ t.rows, ∃ record, transactionFromRow row = .ok record := by
  intro row hr
  obtain ⟨now, q, rfl, hq⟩ := h row hr
  exact ⟨_, transactionFromRow_inserted (currency_of_received hq)⟩

-- The record of such a row can be sent.
theorem Received.sendable (h : Received t) {row : TransactionRow} (hr : row ∈ t.rows)
    {record : TransactionRecord} (hrow : transactionFromRow row = .ok record) :
    record.Sendable := by
  obtain ⟨now, q, rfl, hq⟩ := h row hr
  obtain ⟨_, rfl⟩ := transactionFromRow_inserted_iff.mp hrow
  have ⟨hc, x, hx, ho, _⟩ := EventPayload.ofJson_body_iff.mp hq
  have hb : EventPayload.ofJson q.stored.body = .ok (q.stored.received x hx) :=
    EventPayload.ofJson_body_iff.mpr ⟨hc, x, hx, ho, rfl⟩
  exact ⟨_, hb⟩

theorem getBalance_accountId {b : BalanceResponse} (h : getBalance order t accountId = .ok b) :
    b.accountId = accountId.strip := by
  unfold getBalance at h
  cases hf : (t.select order (·.accountId = accountId)).foldlM balanceStep (Decimal.zero, none)
  case error => simp [hf, Except.map] at h
  case ok result =>
    rw [hf] at h
    exact (congrArg (·.accountId) (Except.ok.inj h)).symm

theorem getBalance_trimmed (hc : Consistent t) {b : BalanceResponse}
    (h : getBalance order t accountId = .ok b) : b.Trimmed where
  accountId := by
    rw [getBalance_accountId h]
    exact Text.strip_eq_self (Text.strip_stripped accountId)
  currency c hb := by
    have hr := getBalance_reports hc h
    have hn : b.currency ≠ none := by simp [Option.mem_def.mp hb]
    rw [ne_eq, hr.none_iff] at hn
    push Not at hn
    have ⟨row, hm, ha⟩ := hn
    obtain ⟨_, event, rfl⟩ := hc.written row hm
    cases hb.symm.trans (hr.some_of_row _ hm ha)
    exact event.currency_strip

-- What a read of a table shows, as the JSON of the response.
inductive Shows (t : Transactions) : Endpoint → Json → Prop
  | balance {order accountId b} : getBalance order t accountId = .ok b →
    Shows t (.getBalance accountId) (.obj b.modelFields)
  | account {order accountId d} : getAccountDetails order t accountId defaultLimit = .ok d →
    Shows t (.getAccount accountId) (.obj d.modelFields)

-- The content of an answer is read by the caller as a model with the same content.
def Relays {β : Type} (parse : Document → Except Invalid β) (fields : β → List (Text × Json))
    (content : Document) : Prop :=
  ∃ b, parse content = .ok b ∧ .obj (fields b) = content.val

-- An answer to a read is an internal error, or what it shows and the caller can read.
theorem getBalance_relays (hc : Consistent s.transactions) (order : RowOrder TransactionRow)
    (accountId : Text) : s.getBalance order accountId = .internalError ∨
    ∃ content, s.getBalance order accountId = .render 200 content ∧
      Shows s.transactions (.getBalance accountId) content.val ∧ (content.val.isStandard →
        Relays BalanceResponse.ofJson BalanceResponse.modelFields content) := by
  unfold State.getBalance
  cases hb : Account.getBalance order s.transactions accountId
  case error e => exact .inl rfl
  case ok b =>
    refine .inr ⟨⟨.obj b.modelFields, b.modelFields_wf⟩, rfl, .balance hb, fun hs => ?_⟩
    have ⟨x, hx⟩ := Option.isSome_iff_exists.mp (BalanceResponse.modelFields_isStandard_iff.mp hs)
    exact ⟨_, BalanceResponse.ofJson_modelFields (getBalance_trimmed hc hb) hx,
      congrArg _ (BalanceResponse.modelFields_relayed hx)⟩

theorem getAccount_relays (hc : Consistent s.transactions) (hr : Received s.transactions)
    (order : RowOrder TransactionRow) (accountId : Text) :
    s.getAccount order accountId = .internalError ∨
    ∃ content, s.getAccount order accountId = .render 200 content ∧
      Shows s.transactions (.getAccount accountId) content.val ∧ (content.val.isStandard →
        Relays AccountDetailsResponse.ofJson AccountDetailsResponse.modelFields content ∧
        ∃ b, BalanceResponse.ofJson content = .ok b ∧
          Shows s.transactions (.getBalance accountId) (.obj b.modelFields)) := by
  unfold State.getAccount
  cases hd : getAccountDetails order s.transactions accountId defaultLimit
  case error e => exact .inl rfl
  case ok d =>
    refine .inr ⟨⟨.obj d.modelFields, d.modelFields_wf⟩, rfl, .account hd, fun hs => ?_⟩
    have hb := getAccountDetails_balance hd
    have hm := getAccountDetails_history hd
    have hs : (Json.obj d.toBalanceResponse.modelFields).isStandard :=
      Json.isStandard_obj.mpr fun f hf =>
        Json.isStandard_obj.mp hs f (List.mem_append_left _ hf)
    have ⟨x, hx⟩ := Option.isSome_iff_exists.mp (BalanceResponse.modelFields_isStandard_iff.mp hs)
    have hsend : ∀ r ∈ d.recentTransactions, r.Sendable := by
      intro r hrec
      have ⟨row, hrow, he⟩ := List.exists_mem_of_forall₂ (Except.mapM_eq_ok_iff.mp hm) hrec
      have hrow := List.mem_of_mem_take hrow
      exact hr.sendable (Table.mem_select.mp ((Table.orderBy_perm _).mem_iff.mp hrow)).1 he
    have ht := getBalance_trimmed hc hb
    have ⟨d', hj, hf⟩ := AccountDetailsResponse.ofJson_modelFields ht hx hsend
    refine ⟨⟨d', hj, congrArg _ hf⟩, _, BalanceResponse.ofFields_modelFields ht hx, ?_⟩
    rw [BalanceResponse.modelFields_relayed hx]
    exact .balance hb

-- What is shown names its account.
theorem Shows.names {e : Endpoint} {content : Json} (h : Shows t e content) :
    ∃ fs, content = .obj fs ∧ fs.lookup "accountId".toList = some (.str e.accountId.strip) := by
  cases h
  case balance b hb => exact ⟨_, rfl, congrArg (some ∘ Json.str) (getBalance_accountId hb)⟩
  case account d hd =>
    have hb := getBalance_accountId (getAccountDetails_balance hd)
    exact ⟨_, rfl, congrArg (some ∘ Json.str) hb⟩

end Account
