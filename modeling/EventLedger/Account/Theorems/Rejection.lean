import EventLedger.Account.Theorems.Handling

namespace Http.Response

theorem status_of_isSuccess {r : Response} (h : r.isSuccess) : r.status < 400 := by
  have ⟨status, body⟩ := r
  cases body
  case json => exact of_decide_eq_true h
  case text => cases h

theorem render_status (status : ℕ) (content : Document) :
    (render status content).status = status ∨ (render status content).status = 500 := by
  unfold render
  split
  case isTrue  => exact .inl rfl
  case isFalse => exact .inr rfl

end Http.Response

namespace Account

open Http

variable {order : RowOrder TransactionRow} {now : Civil} {q : EventPayload}
variable {t u : Transactions} {s : State} {request : Request}

-- The payload of a request, if it has one, is already recorded, or has the wrong currency.
def Barred (t : Transactions) (request : Request) : Prop :=
  ∀ q, Submits request q → (∃ row, t.find? q.eventId = some row) ∨
    ∃ row ∈ t.rows, row.accountId = q.accountId ∧ row.currency ≠ q.currency

theorem Barred.extends (h : Barred t request) (he : t.Extends u) : Barred u request := by
  intro q hq
  refine (h q hq).imp (fun ⟨row, hf⟩ => ⟨row, he.find? hf⟩) ?_
  exact fun ⟨row, hr, hc⟩ => ⟨row, he.mem hr, hc⟩

theorem Barred.handle (h : Barred s.transactions request) (hc : Consistent s.transactions)
    (order : RowOrder TransactionRow) (now : Civil) :
    (s.handle order now request).2.transactions = s.transactions := by
  rcases s.handle_rows_cases order now request with he | ⟨q, hq, hf, hg, _⟩
  case inl => exact he
  case inr =>
    rcases h q hq with ⟨row, hr⟩ | ⟨row, hr, ha, hn⟩
    case inl => cases hf.symm.trans hr
    case inr => exact absurd ((refuses_eq_none hc).mp hg row hr ha) hn

-- A request that is answered with a client error inserts nothing, now or later.
theorem barred_of_rejected (hc : Consistent s.transactions)
    (h₄ : 400 ≤ (s.handle order now request).1.status)
    (h₅ : (s.handle order now request).1.status < 500) : Barred s.transactions request := by
  intro q hq
  rw [State.handle_submits hq] at h₄ h₅
  have hp := applyTransaction_put order now q s.transactions
  generalize Account.applyTransaction order now q s.transactions = x at hp h₄ h₅
  have ⟨result, u⟩ := x
  dsimp only at hp h₄ h₅
  have hok : ∀ record created, result ≠ .ok (record, created) := by
    rintro record created rfl
    cases created
    case true =>
      have he := Response.render_status 201 ⟨.obj record.modelFields, record.modelFields_wf⟩
      cases he
      case inl he => simp only [State.answer, he] at h₄ h₅; omega
      case inr he => simp only [State.answer, he] at h₄ h₅; omega
    case false =>
      have he := Response.render_status 200 ⟨.obj record.modelFields, record.modelFields_wf⟩
      cases he
      case inl he => simp only [State.answer, he] at h₄ h₅; omega
      case inr he => simp only [State.answer, he] at h₄ h₅; omega
  cases hp
  case replayed           => exact absurd rfl (hok _ _)
  case inserted           => exact absurd rfl (hok _ _)
  case conflicting hf _ _ => exact .inl ⟨_, hf⟩
  case stale hf _         => exact .inl ⟨_, hf⟩
  case refused hf hg =>
    have hn : ¬(store order now).refuses s.transactions q = none := by simp [hg]
    rw [refuses_eq_none hc] at hn
    push Not at hn
    exact .inr hn
  case unread hr _ =>
    obtain ⟨e, _, rfl⟩ := Except.mapError_eq_error hr
    exact absurd h₅ (by simp [State.answer, Response.internalError])

end Account
