import EventLedger.System.Theorems.Orphans
import EventLedger.System.Theorems.Recovery

namespace System

open Gateway (Client)
open Account (TransactionRow)

variable {client : Client} {s t u : State} {p : EventPayload} {row : TransactionRow}

-- However the circuit is, it lets a call through after some time.
theorem exists_wait (client : Client) (s : State) : ∃ duration t,
    (machine client).step s (.wait duration) = some t ∧
    t.gateway.breaker.allowsRequest client t.gateway.clock ∧
    t.gateway.events = s.gateway.events ∧ t.account = s.account ∧
    t.deliveries = s.deliveries ∧ t.gateway.begun = s.gateway.begun := by
  have hw : ∀ duration : ℚ, 0 ≤ duration →
      (machine client).step s (.wait duration) = some { s with
        gateway := { s.gateway with clock := s.gateway.clock + duration } } := by
    intro duration hd
    simp [machine, State.step, Gateway.State.step, Gateway.State.wait, hd, State.gatewayStep]
  cases ho : s.gateway.breaker.circuitOpenedAt
  case none =>
    refine ⟨0, _, hw 0 le_rfl, ?_, rfl, rfl, rfl, rfl⟩
    simp [Gateway.Breaker.allowsRequest, ho]
  case some opened =>
    refine ⟨max 0 (client.circuitResetSeconds + opened - s.gateway.clock), _,
      hw _ (le_max_left _ _), ?_, rfl, rfl, rfl, rfl⟩
    have hm := le_max_right 0 (client.circuitResetSeconds + opened - s.gateway.clock)
    simp only [Gateway.Breaker.allowsRequest, ho, decide_eq_true_eq]
    linarith

theorem find?_of_getEvent {g : Gateway.State} {eventId : Text} {record : EventRecord}
    (h : g.getEvent eventId = .event 200 record) : (g.events.find? eventId).isSome := by
  by_contra hn
  have hn := Gateway.getEvent_none (Option.not_isSome_iff_eq_none.mp hn)
  simp [Gateway.State.getEvent, hn] at h

-- An attempt is delivered, and the Gateway is told the answer of the Account Service.
theorem receive_of_round {m : Gateway.Sent} {i : ℕ} {order : RowOrder TransactionRow}
    {now now' : Civil} (hm : t.requests[i]? = some m)
    (hu : (machine client).runFrom t [.deliver i order now, .receive t.replies.length now'] =
      some u) :
    (machine client).step (t.delivered i order now m) (.receive t.replies.length now') = some u ∧
      (t.delivered i order now m).replies[t.replies.length]? =
        some { tag := m.tag, response := (t.account.handle order now m.request).1 } := by
  have ⟨w, hw, hu⟩ := Machine.runFrom_cons hu
  have ⟨u', hs, hu⟩ := Machine.runFrom_cons hu
  cases hu
  have hd : (machine client).step t (.deliver i order now) = some (t.delivered i order now m) :=
    congrArg (Option.map _) hm
  cases hw.symm.trans hd
  exact ⟨hs, by simp [State.delivered]⟩

-- What the answer to an awaited attempt of a resubmission does to the two tables.
theorem Resubmits.answered {q : EventPayload} {request : Http.Request} {m : Gateway.Sent} {i : ℕ}
    (hc : Carried client p q request) (h : Resubmits client p q m.tag.handler t)
    (hf : t.gateway.events.find? p.eventId = none) (hm : t.requests[i]? = some m)
    (hr : m.request = request) {order : RowOrder TransactionRow} {now : Civil}
    (hu : (machine client).runFrom t [.deliver i order now, .receive t.replies.length now] =
      some u) :
    u.account.transactions = t.account.transactions ∧
      (u.gateway.events.find? p.eventId).isSome := by
  have ⟨hs, hrep⟩ := receive_of_round hm hu
  have hre : Resubmits client p q m.tag.handler (t.delivered i order now m) :=
    h.moves hc (.deliver hm)
  have hsame : ∀ record, Gateway.getEvent (t.delivered i order now m).gateway.events p.eventId =
      .ok (some record) → record.SameFacts p := by
    intro record hg
    cases (Gateway.getEvent_none hf).symm.trans hg
  obtain ⟨_, _, _, _, hget, _⟩ := hre.receive hc.body hrep rfl hs hsame
  refine ⟨?_, find?_of_getEvent hget⟩
  have ht : (t.delivered i order now m).account.transactions = t.account.transactions :=
    (Account.State.handle_replays (hr ▸ hc.submits) h.taken hc.amount).1
  cases State.step_moves hs
  case turn hturn => exact hturn.account_transactions.trans ht
  case idle hidle => exact hidle.transactions.trans ht

-- A submission that begins has sent its first attempt.
structure Launched (client : Client) (s : State) (p : EventPayload) (m : Gateway.Sent)
    (t : State) : Prop where
  step : (machine client).step s (.begin (.applyTransaction p)) = some t
  tag : m.tag = ⟨s.gateway.begun.length, 1⟩
  sent : t.requests[s.requests.length]? = some m
  calling : t.gateway.handlers s.gateway.begun.length = some ⟨.applyTransaction p, 1, .calling⟩
  events : t.gateway.events = s.gateway.events
  account : t.account = s.account

theorem exists_launched {q : EventPayload} {request : Http.Request}
    (hc : Carried client p q request) (hf : s.gateway.events.find? p.eventId = none)
    (hb : s.gateway.breaker.allowsRequest client s.gateway.clock) :
    ∃ m t, Launched client s p m t ∧ m.request = request := by
  have hstep : (machine client).step s (.begin (.applyTransaction p)) =
      some (s.gatewayStep (s.gateway.begin client (.applyTransaction p))) := rfl
  rw [begin_applyTransaction hc hf hb] at hstep
  refine ⟨⟨⟨s.gateway.begun.length, 1⟩, request⟩, _, ⟨hstep, rfl, ?_, ?_, rfl, rfl⟩, rfl⟩
  case refine_1 => simp [State.gatewayStep]
  case refine_2 => simp [State.gatewayStep, Gateway.State.enter]

-- The Account Service can answer that attempt at once.
theorem Launched.round {m : Gateway.Sent} (h : Launched client s p m t)
    (order : RowOrder TransactionRow) (now : Civil) : ∃ u,
    (machine client).runFrom t
      [.deliver s.requests.length order now, .receive t.replies.length now] = some u ∧
    (machine client).runFrom s [.begin (.applyTransaction p),
      .deliver s.requests.length order now, .receive t.replies.length now] = some u := by
  have hawaits : t.awaits m.tag := by simp [State.awaits, h.tag, h.calling]
  obtain ⟨u, hu⟩ : ∃ u, (machine client).runFrom t
      [.deliver s.requests.length order now, .receive t.replies.length now] = some u :=
    answers_awaited h.sent hawaits order now now
  refine ⟨u, hu, ?_⟩
  rw [Machine.runFrom, h.step]
  exact hu

-- The row of a submission whose event the Gateway lacks is acknowledged when it is submitted again.
theorem recover_one (h : (machine client).Reachable s) (hh : Holds s p)
    (hf : s.gateway.events.find? p.eventId = none)
    (hb : s.gateway.breaker.allowsRequest client s.gateway.clock) (order : RowOrder TransactionRow)
    (now : Civil) : ∃ as u, (machine client).runFrom s as = some u ∧
      u.account.transactions = s.account.transactions ∧
      (u.gateway.events.find? p.eventId).isSome := by
  have ⟨q, request, hc, ht⟩ := (Sound.of_reachable h).carried hh
  have ⟨m, v, hv, hr⟩ := exists_launched hc hf hb
  have ⟨u, hu, hrun⟩ := hv.round order now
  have hre : Resubmits client p q m.tag.handler v :=
    hv.tag ▸ Resubmits.begin (.of_reachable h) (logged_of_reachable h) ht hv.step
  have ⟨htab, hsome⟩ := Resubmits.answered hc hre (hv.events ▸ hf) hv.sent hr hu
  exact ⟨_, u, hrun, htab.trans (congrArg (·.transactions) hv.account), hsome⟩

-- The rows that the Gateway has no event of.
def State.orphanCount (s : State) : ℕ :=
  s.account.transactions.rows.countP fun row => (s.gateway.events.find? row.eventId).isNone

-- There are fewer of them once one has been acknowledged.
theorem orphanCount_lt {as : List Action} (ht : (machine client).runFrom s as = some t)
    (htab : t.account.transactions = s.account.transactions)
    (hr : row ∈ s.account.transactions.rows) (hn : s.gateway.events.find? row.eventId = none)
    (hsome : (t.gateway.events.find? row.eventId).isSome) : t.orphanCount < s.orphanCount := by
  rw [State.orphanCount, htab]
  refine List.countP_lt_countP (fun row' _ hnone => ?_) hr ?_ (by simp [hn])
  case refine_1 =>
    cases hf : s.gateway.events.find? row'.eventId
    case none   => rfl
    case some g => simp [(events_extends ht).find? hf] at hnone
  case refine_2 => simpa using hsome

-- One of them can be acknowledged.
theorem exists_recovered (h : (machine client).Reachable s)
    (hr : row ∈ s.account.transactions.rows) (hn : s.gateway.events.find? row.eventId = none) :
    ∃ as u, (machine client).runFrom s as = some u ∧
      u.account.transactions = s.account.transactions ∧
      (u.gateway.events.find? row.eventId).isSome := by
  obtain ⟨d, hd, hi, q, hq, rfl⟩ := (written_of_reachable h).source row hr
  have ⟨p, hp, hj⟩ := ((Sound.of_reachable h).delivered d hd).submits hq
  have ⟨duration, t, ht, hb, hev, hacc, hdel, hbegun⟩ := exists_wait client s
  have hid : (Account.insertedRow d.now q).eventId = p.eventId := by
    obtain ⟨_, x, _, _, rfl⟩ := EventPayload.ofJson_body_iff.mp hj
    rfl
  have hsub : t.gateway.submitted d.sent.tag.handler = some p := by
    rw [Gateway.State.submitted_eq_some, hbegun]
    exact Gateway.State.submitted_eq_some.mp hp
  have hwait : (machine client).runFrom s [.wait duration] = some t := by
    simp [Machine.runFrom, ht]
  obtain ⟨as, u, hu, htab, hsome⟩ := recover_one (h.runFrom hwait) ⟨d, hdel ▸ hd, hi, hsub⟩
    (by rw [hev, ← hid, hn]) hb .inserted d.now
  refine ⟨.wait duration :: as, u, ?_, htab.trans (congrArg (·.transactions) hacc), hid ▸ hsome⟩
  rw [Machine.runFrom, ht]
  exact hu

-- From every state the two tables can be brought together, and no money moves on the way.
theorem can_reconcile (h : (machine client).Reachable s) : ∃ as u,
    (machine client).runFrom s as = some u ∧
    u.account.transactions = s.account.transactions ∧
    ∀ row ∈ u.account.transactions.rows, (u.gateway.events.find? row.eventId).isSome := by
  induction hc : s.orphanCount using Nat.strong_induction_on generalizing s
  case h n hi =>
    subst hc
    by_cases hn : ∀ row ∈ s.account.transactions.rows, (s.gateway.events.find? row.eventId).isSome
    case pos => exact ⟨[], s, rfl, rfl, hn⟩
    case neg =>
      push Not at hn
      obtain ⟨row, hr, hn⟩ := hn
      have hn := Option.not_isSome_iff_eq_none.mp hn
      obtain ⟨as, t, ht, htab, hsome⟩ := exists_recovered h hr hn
      have hlt : t.orphanCount < s.orphanCount := orphanCount_lt ht htab hr hn hsome
      obtain ⟨bs, u, hu, htab', hall⟩ := hi _ hlt (h.runFrom ht) rfl
      refine ⟨as ++ bs, u, ?_, htab'.trans htab, hall⟩
      rw [Machine.runFrom_append, ht]
      exact hu

theorem can_reconcile_lostReply : ∃ s, (machine .default).run lostReply = some s ∧
    s.orphanCount = 1 ∧ ∃ as u, (machine .default).runFrom s as = some u ∧
      u.account.transactions = s.account.transactions ∧
      ∀ row ∈ u.account.transactions.rows, (u.gateway.events.find? row.eventId).isSome := by
  have hr : ((machine .default).run lostReply).map State.orphanCount = some 1 := by decide +kernel
  have ⟨s, hs, hn⟩ := Option.map_eq_some_iff.mp hr
  exact ⟨s, hs, hn, can_reconcile ⟨_, hs⟩⟩

end System
