import EventLedger.Gateway.AccountClient

namespace Gateway

open Http

variable {client : Client} {clock : ℚ} {attempt : ℕ} {b : Breaker} {outcome : Outcome}

def Outcome.isSuccess : Outcome → Bool
  | .error _    => false
  | .response r => r.isSuccess

-- A caught exception, or a response of 500 and more.
def Outcome.isFailure : Outcome → Bool
  | .error e    => e.isCaught
  | .response r => 500 ≤ r.status

theorem Outcome.isSuccess_of_isFailure (h : outcome.isFailure) : outcome.isSuccess = false := by
  cases outcome
  case error => rfl
  case response r =>
    obtain ⟨status, body⟩ := r
    have h : 500 ≤ status := of_decide_eq_true h
    cases body
    case text => rfl
    case json =>
      refine decide_eq_false ?_
      omega

namespace Client

theorem request_applyTransaction {event : EventPayload} {sent : Request}
    (h : client.request (.applyTransaction event) = some sent) :
    sent.method = .post ∧ sent.body = some event.body ∧
    Url.encode client.rules (transactionsPath event.accountId) = some sent.path := by
  obtain ⟨body, hb, h⟩ := Option.bind_eq_some_iff.mp h
  obtain ⟨path, hp, rfl⟩ := Option.map_eq_some_iff.mp h
  obtain ⟨_, _, rfl⟩ := EventPayload.encode_eq_some.mp hb
  exact ⟨rfl, rfl, hp⟩

theorem encode_of_request {event : EventPayload}
    (h : (client.request (.applyTransaction event)).isSome) :
    event.encode client.dumps = some event.body := by
  obtain ⟨sent, h⟩ := Option.isSome_iff_exists.mp h
  obtain ⟨body, hb, _⟩ := Option.bind_eq_some_iff.mp h
  obtain ⟨_, _, rfl⟩ := EventPayload.encode_eq_some.mp hb
  exact hb

theorem request_getBalance {accountId : Text} {sent : Request}
    (h : client.request (.getBalance accountId) = some sent) :
    sent.method = .get ∧ sent.body = none ∧
    Url.encode client.rules (balancePath accountId) = some sent.path := by
  obtain ⟨path, hp, he⟩ := Option.map_eq_some_iff.mp h
  exact he ▸ ⟨rfl, rfl, hp⟩

theorem request_getAccount {accountId : Text} {sent : Request}
    (h : client.request (.getAccount accountId) = some sent) :
    sent.method = .get ∧ sent.body = none ∧
    Url.encode client.rules (accountPath accountId) = some sent.path := by
  obtain ⟨path, hp, he⟩ := Option.map_eq_some_iff.mp h
  exact he ▸ ⟨rfl, rfl, hp⟩

-- The verdicts on an attempt: what each says about its outcome.
inductive Judges (client : Client) (attempt : ℕ) (outcome : Outcome) : Verdict → Prop
  | retry {delay} : outcome.isFailure → attempt < client.maxAttempts →
    Judges client attempt outcome (.retry delay)
  | unavailable : outcome.isFailure → client.maxAttempts ≤ attempt →
    Judges client attempt outcome .unavailable
  | rejected {status detail} : outcome.isFailure = false → 400 ≤ status → status < 500 →
    Judges client attempt outcome (.rejected status detail)
  | returned {status payload} : outcome = .response ⟨status, .json payload⟩ → status < 400 →
    Judges client attempt outcome (.returned payload)
  | escaped : outcome.isSuccess = false →
    (outcome.isFailure → attempt < client.maxAttempts ∧ overflowAttempt ≤ attempt) →
    Judges client attempt outcome .escaped

-- The verdict that ends the attempts.
theorem Judges.unavailable_iff {verdict : Verdict} (h : client.Judges attempt outcome verdict) :
    verdict = .unavailable ↔ outcome.isFailure ∧ client.maxAttempts ≤ attempt := by
  cases h
  case retry ha          => simp [Nat.not_le.mpr ha]
  case unavailable hf ha => simp [hf, ha]
  case rejected hf _ _   => simp [hf]
  case returned hr hl    =>
    have hf : outcome.isFailure = false := by
      simp only [hr, Outcome.isFailure, decide_eq_false_iff_not]
      omega
    simp [hf]
  case escaped hf        =>
    refine iff_of_false (by simp) ?_
    rintro ⟨hfail, ha⟩
    exact absurd (hf hfail).1 (Nat.not_lt.mpr ha)

theorem failed_judges (h : outcome.isFailure) :
    client.Judges attempt outcome (client.failed clock attempt b).1 := by
  unfold failed delay
  split_ifs with ha ho
  case pos => exact .retry h ha
  case neg => exact .escaped (Outcome.isSuccess_of_isFailure h) fun _ => ⟨ha, Nat.le_of_not_lt ho⟩
  case neg => exact .unavailable h (Nat.le_of_not_lt ha)

theorem settle_judges (client : Client) (clock : ℚ) (attempt : ℕ) (b : Breaker)
    (outcome : Outcome) :
    client.Judges attempt outcome (client.settle clock attempt b outcome).1 := by
  cases outcome
  case error e =>
    simp only [settle]
    split
    case isTrue h  => exact failed_judges h
    case isFalse h => exact .escaped rfl fun hf => absurd hf h
  case response r =>
    obtain ⟨status, body⟩ := r
    simp only [settle]
    split
    case isTrue h => exact failed_judges (by simpa [Outcome.isFailure] using h)
    case isFalse h₅ =>
      have hf : Outcome.isFailure (.response ⟨status, body⟩) = false := decide_eq_false h₅
      split
      case isTrue h₄ =>
        have he : Outcome.isSuccess (.response ⟨status, body⟩) = false := by
          cases body
          case json => simpa [Outcome.isSuccess, Response.isSuccess] using h₄
          case text => rfl
        split
        case h_1 => exact .rejected hf h₄ (Nat.lt_of_not_le h₅)
        case h_2 => exact .escaped he (by simp [hf])
      case isFalse h₄ =>
        cases body
        case json payload => exact .returned rfl (Nat.lt_of_not_le h₄)
        case text         => exact .escaped rfl (by simp [hf])

-- A success ends the call and closes the circuit.
theorem settle_success (client : Client) (clock : ℚ) (attempt : ℕ) (b : Breaker)
    (h : outcome.isSuccess) :
    ∃ payload, client.settle clock attempt b outcome = (.returned payload, .closed) := by
  cases outcome
  case error => cases h
  case response r =>
    obtain ⟨status, body⟩ := r
    cases body
    case text => cases h
    case json payload =>
      have hl : status < 400 := of_decide_eq_true h
      refine ⟨payload, ?_⟩
      simp only [settle, if_neg (show ¬500 ≤ status by omega), if_neg (show ¬400 ≤ status by omega)]
      rfl

end Client

end Gateway
