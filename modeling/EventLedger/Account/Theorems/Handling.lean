import EventLedger.Account.Theorems.Invariant
import EventLedger.Account.Theorems.Routes

namespace Account

open Http

variable {order : RowOrder TransactionRow} {now : Civil} {event q : EventPayload}
variable {t u : Transactions} {s : State} {request : Request}

-- The request asks for the transaction of a payload, at the path of its account.
structure Submits (request : Request) (q : EventPayload) : Prop where
  route : dispatch request.method (Url.unquote request.path) =
    .endpoint (.applyTransaction q.accountId)
  body : ∃ body, request.body = some body ∧ EventPayload.ofJson body = .ok q

-- The table holds a record of the payload.
def Taken (t : Transactions) (q : EventPayload) : Prop :=
  ∃ row record, t.find? q.eventId = some row ∧ transactionFromRow row = .ok record ∧
    record.SameFacts q

theorem Taken.extends (h : Taken t q) (he : t.Extends u) : Taken u q := by
  obtain ⟨row, record, hf, hr, hs⟩ := h
  exact ⟨row, record, he.find? hf, hr, hs⟩

theorem sameFacts_of_inserted {record : TransactionRecord}
    (h : transactionFromRow (insertedRow now q) = .ok record) : record.SameFacts q := by
  by_cases hl : q.currency.length = 3
  case pos =>
    rw [transactionFromRow_inserted hl, Except.ok.injEq] at h
    exact h ▸ q.stored_sameFacts
  case neg =>
    obtain ⟨e, he⟩ : ∃ e, transactionFromRow (insertedRow now q) = .error e :=
      transactionFromRow_error hl
    simp [he] at h

namespace State

theorem answer_transactions (s : State) (result : Except ApplyError (TransactionRecord × Bool)) :
    (s.answer result).2.transactions = s.transactions := by
  unfold answer
  split <;> rfl

-- Only a record is answered with success.
theorem answer_isSuccess {result : Except ApplyError (TransactionRecord × Bool)}
    (h : (s.answer result).1.isSuccess) : ∃ record created, result = .ok (record, created) := by
  unfold answer at h
  split at h
  case h_1 record  => exact ⟨record, _, rfl⟩
  case h_2 record  => exact ⟨record, _, rfl⟩
  all_goals cases h

theorem handle_submits (h : Submits request q) : s.handle order now request =
    (s.applied (Account.applyTransaction order now q s.transactions).2).answer
      (Account.applyTransaction order now q s.transactions).1 := by
  obtain ⟨body, hb, hq⟩ := h.body
  simp only [handle, h.route, post, hb, hq, applyTransaction, ne_eq, not_true_eq_false, if_false]

theorem post_other {accountId : Text} {body : Option Document}
    (h : ∀ b q, body = some b → EventPayload.ofJson b = .ok q → q.accountId ≠ accountId) :
    (s.post order now accountId body).2.transactions = s.transactions ∧
    (s.post order now accountId body).1.isSuccess = false := by
  cases body
  case none => exact ⟨rfl, rfl⟩
  case some body =>
    cases hq : EventPayload.ofJson body
    case error e =>
      simp only [post, hq, true_and]
      exact Response.ofInvalid_isSuccess e
    case ok q =>
      simp only [post, hq, applyTransaction, if_pos (h body q rfl hq)]
      exact ⟨rfl, rfl⟩

-- Every other request leaves the table as it is.
theorem handle_other (h : ∀ q, ¬Submits request q) :
    (s.handle order now request).2.transactions = s.transactions ∧
    (request.method = .post → (s.handle order now request).1.isSuccess = false) := by
  unfold handle
  split
  case h_1 accountId hd =>
    have ho : (s.post order now accountId request.body).2.transactions = s.transactions ∧
        (s.post order now accountId request.body).1.isSuccess = false :=
      s.post_other fun b q hb hq ha => h q ⟨ha ▸ hd, b, hb, hq⟩
    exact ⟨ho.1, fun _ => ho.2⟩
  case h_2 hd =>
    refine ⟨rfl, fun hm => ?_⟩
    cases hm.symm.trans (method_of_dispatch hd)
  case h_3 hd =>
    refine ⟨rfl, fun hm => ?_⟩
    cases hm.symm.trans (method_of_dispatch hd)
  all_goals exact ⟨rfl, fun _ => rfl⟩

-- The table stays, or the row of the payload that the request asks for is appended to it.
theorem handle_rows_cases (s : State) (order : RowOrder TransactionRow) (now : Civil)
    (request : Request) :
    (s.handle order now request).2.transactions = s.transactions ∨
    ∃ q, Submits request q ∧ s.transactions.find? q.eventId = none ∧
      (store order now).refuses s.transactions q = none ∧
      (s.handle order now request).2.transactions.rows =
        s.transactions.rows ++ [insertedRow now q] := by
  by_cases h : ∃ q, Submits request q
  case pos =>
    obtain ⟨q, hq⟩ := h
    rw [handle_submits hq, answer_transactions]
    rcases (applyTransaction_put order now q s.transactions).rows_cases with he | he
    case inl => exact .inl he
    case inr => exact .inr ⟨q, hq, he⟩
  case neg => exact .inl (handle_other (not_exists.mp h)).1

theorem handle_extends (s : State) (order : RowOrder TransactionRow) (now : Civil)
    (request : Request) : s.transactions.Extends (s.handle order now request).2.transactions := by
  rcases s.handle_rows_cases order now request with he | ⟨_, _, _, _, hu⟩
  case inl => exact he ▸ .refl _
  case inr => exact ⟨_, hu.symm⟩

-- A posted request that is answered with success has its payload recorded.
theorem handle_taken (hm : request.method = .post)
    (hs : (s.handle order now request).1.isSuccess) : ∃ q, Submits request q ∧
    Taken (s.handle order now request).2.transactions q := by
  by_cases h : ∃ q, Submits request q
  case neg => simp [(handle_other (not_exists.mp h)).2 hm] at hs
  case pos =>
    obtain ⟨q, hq⟩ := h
    refine ⟨q, hq, ?_⟩
    rw [handle_submits hq] at hs
    rw [handle_submits hq, answer_transactions]
    obtain ⟨record, created, he⟩ := answer_isSuccess hs
    have hp := applyTransaction_put order now q s.transactions
    rw [he] at hp
    obtain ⟨row, hf, hr, hsame, hnew⟩ := hp.find?_of_ok
    have hr := Except.mapError_eq_ok hr
    refine ⟨row, record, hf, hr, ?_⟩
    cases created
    case false => exact sameEvent_iff.mp (hsame rfl)
    case true  => exact sameFacts_of_inserted (hnew rfl ▸ hr)

-- A payload that the table holds is answered again, and changes nothing.
theorem handle_replays (hq : Submits request q) (ht : Taken s.transactions q)
    (hx : (Binary64.ofDecimal q.amount).isSome) :
    (s.handle order now request).2.transactions = s.transactions ∧
    (s.handle order now request).1.isSuccess := by
  obtain ⟨row, record, hf, hr, hs⟩ := ht
  have hr : (store order now).read row = .ok record := by
    simp only [store, hr]
    rfl
  obtain ⟨he, hu⟩ := (applyTransaction_put order now q s.transactions).of_same hf hr
    (sameEvent_iff.mpr hs)
  rw [handle_submits hq, answer_transactions, he]
  refine ⟨hu, ?_⟩
  have hd : Binary64.ofDecimal record.amount = Binary64.ofDecimal q.amount :=
    Binary64.ofDecimal_congr (congrArg abs hs.amount)
  rw [answer, Response.render_of_isStandard (record.modelFields_isStandard (hd ▸ hx))]
  rfl

-- The table after a request depends on the table before it only.
theorem handle_congr {s' : State} (h : s.transactions = s'.transactions) :
    (s.handle order now request).2.transactions = (s'.handle order now request).2.transactions := by
  by_cases hq : ∃ q, Submits request q
  case pos =>
    obtain ⟨q, hq⟩ := hq
    rw [handle_submits hq, handle_submits hq, answer_transactions, answer_transactions, h]
    rfl
  case neg =>
    rw [(handle_other (not_exists.mp hq)).1, (handle_other (not_exists.mp hq)).1, h]

end State

theorem Consistent.handle {s : State} (h : Consistent s.transactions)
    (order : RowOrder TransactionRow) (now : Civil) (request : Request) :
    Consistent (s.handle order now request).2.transactions := by
  by_cases hq : ∃ q, Submits request q
  case pos =>
    obtain ⟨q, hq⟩ := hq
    rw [State.handle_submits hq, State.answer_transactions]
    exact h.apply { order, now, event := q }
  case neg =>
    rw [(State.handle_other (not_exists.mp hq)).1]
    exact h

end Account
