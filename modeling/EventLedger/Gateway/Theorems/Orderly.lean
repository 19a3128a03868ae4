import EventLedger.Gateway.Theorems.Answers

-- The answers that are no surprise to a client.
namespace Gateway

open Http
open Client (overflowAttempt)

variable {client : Client} {s s' : State} {operation : Operation} {answer : Answer}
variable {sent : Option Sent} {outcome : Outcome} {attempt : ℕ} {a : Action} {t u : Events}
variable {reply : Reply}

-- A record of the table, or one of the errors that the API has for a submission.
inductive Orderly (t : Events) : Reply → Prop
  | event {status row record} : status = 200 ∨ status = 201 → row ∈ t.rows →
    eventFromRow row = .ok record → Orderly t (.event status record)
  | refused {status detail} : status = 409 ∨ status = 422 → detail.isStandard →
    Orderly t (.refused status detail)
  | unavailable {text} : Orderly t (.refused 503 (.str text))

theorem Orderly.extends (h : Orderly t reply) (he : t.Extends u) : Orderly u reply := by
  cases h
  case event hs hr hread => exact .event hs (he.mem hr) hread
  case refused hs hd     => exact .refused hs hd
  case unavailable       => exact .unavailable

-- What the handler of a submission can be answered with in good order.
inductive Fine (operation : Operation) : Outcome → Prop
  | failed {outcome : Outcome} : outcome.isFailure → Fine operation outcome
  | refused {status fs h} : status = 409 ∨ status = 422 → (Json.obj fs).isStandard →
    Fine operation (.response ⟨status, .json ⟨.obj fs, h⟩⟩)
  | recorded {status payload event} : status < 400 → operation = .applyTransaction event →
    event.currency.length = 3 → Fine operation (.response ⟨status, .json payload⟩)

theorem isStandard_detail {fs : List (Text × Json)} (h : (Json.obj fs).isStandard) :
    ((fs.lookup "detail".toList).getD (.obj fs)).isStandard := by
  cases hl : fs.lookup "detail".toList
  case none   => exact h
  case some j => exact Json.isStandard_obj.mp h _ (List.mem_of_lookup hl)

theorem Client.settle_json {payload : Document} {status : ℕ} {b : Breaker} {clock : ℚ}
    (h : status < 400) :
    client.settle clock attempt b (.response ⟨status, .json payload⟩) =
      (.returned payload, .closed) := by
  simp only [Client.settle, if_neg (show ¬500 ≤ status by omega),
    if_neg (show ¬400 ≤ status by omega)]
  rfl

-- What the client makes of such an outcome.
inductive FineVerdict (operation : Operation) : Verdict → Prop
  | retry {delay} : FineVerdict operation (.retry delay)
  | unavailable : FineVerdict operation .unavailable
  | rejected {status detail} : status = 409 ∨ status = 422 → detail.isStandard →
    FineVerdict operation (.rejected status detail)
  | recorded {payload event} : operation = .applyTransaction event → event.currency.length = 3 →
    FineVerdict operation (.returned payload)

theorem Client.failed_fine (hm : client.maxAttempts ≤ overflowAttempt) (clock : ℚ) (attempt : ℕ)
    (b : Breaker) : FineVerdict operation (client.failed clock attempt b).1 := by
  unfold failed delay
  split_ifs with ha ho
  case pos => exact .retry
  case neg => exact absurd (ha.trans_le hm) ho
  case neg => exact .unavailable

theorem Client.settle_failed {b : Breaker} {clock : ℚ} (h : outcome.isFailure) :
    client.settle clock attempt b outcome = client.failed clock attempt b := by
  cases outcome
  case error e    => exact if_pos h
  case response r => exact if_pos (of_decide_eq_true h)

theorem Fine.settle (h : Fine operation outcome) (hm : client.maxAttempts ≤ overflowAttempt)
    (clock : ℚ) (attempt : ℕ) (b : Breaker) :
    FineVerdict operation (client.settle clock attempt b outcome).1 := by
  cases h
  case failed hf => exact Client.settle_failed hf ▸ Client.failed_fine hm clock attempt b
  case refused status fs hw hst hd =>
    simp only [Client.settle, responseDetail, if_neg (show ¬500 ≤ status by omega),
      if_pos (show 400 ≤ status by omega)]
    exact .rejected hst (isStandard_detail hd)
  case recorded hlt hop hl => exact Client.settle_json hlt ▸ .recorded hop hl

-- While all operations are submissions whose requests can be built and all outcomes are fine, so
-- are the answers.
theorem orderly_of_step (hm : client.maxAttempts ≤ overflowAttempt) (hs : Sound s)
    (h : s.step client a = some (s', sent))
    (hsub : ∀ operation ∈ s'.begun, operation.submits)
    (hreq : ∀ operation ∈ s'.begun, (client.request operation).isSome)
    (hfine : ∀ id now outcome operation attempt, a = .settle id now outcome →
      s.handlers id = some ⟨operation, attempt, .calling⟩ → Fine operation outcome)
    (ha : answer ∈ s'.answers) : answer ∈ s.answers ∨ Orderly s'.events answer.reply := by
  apply (says_of_step hs h ha).imp_right
  intro ⟨operation, verdict, ho, hsays, hears⟩
  have hv : ∀ v, verdict = some v → FineVerdict operation v := by
    intro v hv
    have ⟨now, outcome, attempt, hset, hh, he⟩ := hears v hv
    exact he ▸ (hfine answer.handler now outcome operation attempt hset hh).settle hm _ _ _
  generalize answer.reply = reply at hsays
  generalize s'.events = u at hsays
  cases hsays
  case replayed hf hr _ => exact .event (.inl rfl) (Table.find?_eq_some.mp hf).1 hr
  case conflict         => exact .refused (by simp) rfl
  case circuitOpen      => exact .unavailable
  case unavailable      => exact .unavailable
  case stale hf hr =>
    have ⟨_, hread⟩ := hs.readable (Table.find?_eq_some.mp hf).1
    cases hread.symm.trans hr
  case unsendable hn =>
    have hi := hreq operation (List.mem_of_getElem? ho)
    simp [hn] at hi
  case rejected =>
    cases hv _ rfl
    case rejected hst hd => exact .refused hst hd
  case escaped => cases hv _ rfl
  case created hr hu =>
    exact .event (.inr rfl) (hu ▸ List.mem_append_right _ List.mem_cons_self) hr
  case unread event _ _ _ hop _ hr _ =>
    cases hv _ rfl
    case recorded hop' hl =>
      cases hop.symm.trans hop'
      cases (eventFromRow_inserted hl).symm.trans hr
  case shown hr => simp [hsub operation (List.mem_of_getElem? ho)] at hr

end Gateway
