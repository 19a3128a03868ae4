import EventLedger.System.Theorems.Unavailable

namespace System

open Http

open Gateway (Client Operation Outcome Sent)
open Account (Submits Taken)

variable {client : Client} {s t t' : State} {a : Action} {p q : EventPayload} {id : ℕ}
variable {request : Request}

-- The Account Service holds the row that an attempt to submit a payload has created.
def Holds (s : State) (p : EventPayload) : Prop :=
  ∃ d ∈ s.deliveries, d.inserted ∧ s.gateway.submitted d.sent.tag.handler = some p

-- What the payload is on the wire, and the request that carries it.
structure Carried (client : Client) (p q : EventPayload) (request : Request) : Prop where
  asked : client.request (.applyTransaction p) = some request
  submits : Submits request q
  body : EventPayload.ofJson p.body = .ok q
  amount : (Binary64.ofDecimal q.amount).isSome

theorem Sound.carried (h : Sound client s) (hh : Holds s p) : ∃ q request,
    Carried client p q request ∧ Taken s.account.transactions q := by
  obtain ⟨d, hd, hi, hp⟩ := hh
  obtain ⟨q, hq, hrow⟩ := h.inserted d hd hi
  have hreq := (h.delivered d hd).submission hp
  obtain ⟨body, hb, hj⟩ := hq.body
  cases (Client.request_applyTransaction hreq).2.1.symm.trans hb
  obtain ⟨hl, x, _, _, he⟩ := EventPayload.ofJson_body_iff.mp hj
  have hx : (Binary64.ofDecimal q.amount).isSome := by
    rw [he]
    exact Option.isSome_iff_exists.mpr ⟨x, x.ofDecimal_readBack⟩
  have hl : q.currency.length = 3 := by rwa [he]
  have hr : Account.transactionFromRow (Account.insertedRow d.now q) =
      .ok (Account.storedRecord d.now q) := Account.transactionFromRow_inserted hl
  exact ⟨q, d.sent.request, ⟨hreq, hq, hj, hx⟩, _, _, Table.find?_eq_some.mpr ⟨hrow, rfl⟩, hr,
    Account.sameFacts_of_inserted hr⟩

-- What holds while a payload that the Account Service has is submitted again by the handler `id`.
structure Resubmits (client : Client) (p q : EventPayload) (id : ℕ) (s : State) : Prop where
  sound : Sound client s
  logged : Logged s.deliveries s.account.transactions
  taken : Taken s.account.transactions q
  begun : s.gateway.begun[id]? = some (.applyTransaction p)
  attempts : ∀ d ∈ s.deliveries, d.sent.tag.handler = id → d.inserted = false
  replies : ∀ r ∈ s.replies, r.tag.handler = id → r.response.isSuccess

namespace Resubmits

theorem submitted (h : Resubmits client p q id s) : s.gateway.submitted id = some p :=
  Gateway.State.submitted_eq_some.mpr h.begun

theorem moves (hc : Carried client p q request) (h : Resubmits client p q id s)
    (hm : Moves client s a t) : Resubmits client p q id t := by
  have hs := h.sound.moves hm
  have hl := h.logged.moves hm
  cases hm
  case turn _ ht =>
    exact {
      sound := hs
      logged := hl
      taken := ht.account ▸ h.taken
      begun := Gateway.State.begun_of_prefix (Gateway.State.step_moves ht.step).begun h.begun
      attempts := ht.deliveries ▸ h.attempts
      replies := fun r hr => h.replies r (ht.replies hr)
    }
  case idle hi =>
    exact {
      sound := hs
      logged := hl
      taken := hi.transactions ▸ h.taken
      begun := hi.gateway ▸ h.begun
      attempts := hi.deliveries ▸ h.attempts
      replies := fun r hr => h.replies r (hi.replies hr)
    }
  case deliver i order now m hreq =>
    have hown : m.tag.handler = id → Submits m.request q := by
      intro he
      have hm := h.sound.requests m (List.mem_of_getElem? hreq)
      have hr := hm.submission (he ▸ h.submitted)
      exact Option.some.inj (hc.asked.symm.trans hr) ▸ hc.submits
    refine ⟨hs, hl, h.taken.extends (Account.State.handle_extends ..), h.begun, ?_, ?_⟩
    case refine_1 =>
      intro d hd he
      rcases List.mem_append.mp hd with hd | hd
      case inl => exact h.attempts d hd he
      case inr =>
        cases List.mem_singleton.mp hd
        have hu : (s.account.handle order now m.request).2.transactions = s.account.transactions :=
          (Account.State.handle_replays (hown he) h.taken hc.amount).1
        exact decide_eq_false fun hn => hn (congrArg (·.rows.length) hu)
    case refine_2 =>
      intro r hr he
      rcases List.mem_append.mp hr with hr | hr
      case inl => exact h.replies r hr he
      case inr =>
        cases List.mem_singleton.mp hr
        exact (Account.State.handle_replays (hown he) h.taken hc.amount).2

theorem runFrom {as : List Action} (hc : Carried client p q request)
    (h : Resubmits client p q id s) (hr : (machine client).runFrom s as = some t) :
    Resubmits client p q id t :=
  Machine.runFrom_invariant (fun _ _ _ hi hs => hi.moves hc (State.step_moves hs)) h hr

theorem unmoved (h : Resubmits client p q id s) : Unmoved s id :=
  (unmoved_iff h.logged).mpr h.attempts

-- A reply of the Account Service ends the submission with the record of the payload.
theorem receive (h : Resubmits client p q id t) (hq : EventPayload.ofJson p.body = .ok q)
    {i : ℕ} {now : Civil} {reply : Replied} (hr : t.replies[i]? = some reply)
    (he : reply.tag.handler = id) (hs : (machine client).step t (.receive i now) = some t')
    (hsame : ∀ record, Gateway.getEvent t.gateway.events p.eventId = .ok (some record) →
      record.SameFacts p) : ∃ status record, (status = 200 ∨ status = 201) ∧
    t'.gateway.answers = t.gateway.answers ++ [{ handler := id, reply := .event status record }] ∧
    t'.gateway.getEvent p.eventId = .event 200 record ∧ record.SameFacts p := by
  subst he
  have ho := h.replies reply (List.mem_of_getElem? hr) rfl
  have ha : t.gatewayAction (.receive i now) =
      some (.settle reply.tag.handler now (.response reply.response)) := congrArg (Option.map _) hr
  cases State.step_moves hs
  case idle hn _ => simp [hn] at ha
  case turn hb ht =>
    cases hb.symm.trans ha
    obtain ⟨u, hu, hg⟩ := Option.map_eq_some_iff.mp ht.step
    have hg := (Prod.mk.inj hg).1
    obtain ⟨operation, attempt, _, hh, _, _⟩ := Gateway.Turn.settle hu
    cases (h.sound.gateway.running _ _ hh).symm.trans h.begun
    rw [hg] at hu
    have ho : Outcome.isSuccess (.response reply.response) := ho
    cases hf : t.gateway.events.find? p.eventId
    case none =>
      have hl := (EventPayload.ofJson_body_iff.mp hq).1
      have hrows := Gateway.State.settle_success_rows hh ho hf hu
      have hn : t'.gateway.events.find? p.eventId = some (Gateway.insertedRow now p) :=
        Table.find?_eq_some.mpr ⟨hrows ▸ List.mem_append_right _ List.mem_cons_self, rfl⟩
      refine ⟨201, Gateway.storedRecord now p, .inr rfl,
        Gateway.State.settle_success_fresh hh ho hf hl hu, ?_, p.stored_sameFacts⟩
      refine Gateway.State.getEvent_of_ok ?_
      rw [Gateway.getEvent_some hn, Gateway.eventFromRow_inserted hl]
      rfl
    case some row =>
      obtain ⟨record, hrec⟩ := h.sound.gateway.getEvent hf
      have hrs := hsame record hrec
      obtain ⟨hans, hev⟩ := Gateway.State.settle_success_same hh ho hrec hrs hu
      exact ⟨200, record, .inl rfl, hans, Gateway.State.getEvent_of_ok (hev ▸ hrec), hrs⟩

end Resubmits

-- The Account Service can always answer an attempt that is awaited.
theorem answers_awaited {j : ℕ} {m : Sent} (hm : t.requests[j]? = some m) (ha : t.awaits m.tag)
    (order : RowOrder Account.TransactionRow) (now now' : Civil) :
    ∃ t', (machine client).runFrom t
      [.deliver j order now, .receive t.replies.length now'] = some t' := by
  have hd : (machine client).step t (.deliver j order now) = some (t.delivered j order now m) :=
    congrArg (Option.map _) hm
  have hr : (t.delivered j order now m).replies[t.replies.length]? =
      some { tag := m.tag, response := (t.account.handle order now m.request).1 } := by
    simp [State.delivered]
  have ha' : (t.delivered j order now m).awaits m.tag := ha
  unfold State.awaits at ha
  split at ha
  case h_2 => cases ha
  case h_1 operation attempt hh =>
    have hs : ∀ outcome, ∃ g, t.gateway.settle client m.tag.handler now' outcome = some g :=
      fun outcome => ⟨_, Gateway.State.settle_eq hh⟩
    obtain ⟨g, hg⟩ := hs (.response (t.account.handle order now m.request).1)
    have hg : (t.delivered j order now m).gateway.settle client m.tag.handler now'
        (.response (t.account.handle order now m.request).1) = some g := hg
    simp only [Machine.runFrom, hd, Option.bind_some]
    simp only [machine, State.step, State.receive, hr, ha', hg, Option.bind_some, if_true,
      Option.map_some]
    exact ⟨_, rfl⟩

theorem begin_applyTransaction (hc : Carried client p q request)
    (hf : s.gateway.events.find? p.eventId = none)
    (hb : s.gateway.breaker.allowsRequest client s.gateway.clock) :
    s.gateway.begin client (.applyTransaction p) =
      ((s.gateway.start (.applyTransaction p)).enter s.gateway.begun.length
        { operation := .applyTransaction p, attempt := 1, phase := .calling },
      some { tag := ⟨s.gateway.begun.length, 1⟩, request }) := by
  have hg : Gateway.getEvent (s.gateway.start (.applyTransaction p)).events p.eventId = .ok none :=
    Gateway.getEvent_none hf
  have hb : (s.gateway.start (.applyTransaction p)).breaker.allowsRequest client
      (s.gateway.start (.applyTransaction p)).clock = true := hb
  simp only [Gateway.State.begin, Gateway.State.submitEvent, hg, Gateway.State.call, hb, if_true,
    Gateway.State.send, hc.asked]

-- The Gateway has recorded no other facts under the id of a payload.
def Unclaimed (t : State) (p : EventPayload) : Prop :=
  ∀ record, Gateway.getEvent t.gateway.events p.eventId = .ok (some record) → record.SameFacts p

-- A step ends the submission with success, and leaves the Gateway with the record of the payload.
def Recovered (p : EventPayload) (id : ℕ) (t t' : State) : Prop :=
  ∃ status record, (status = 200 ∨ status = 201) ∧
    t'.gateway.answers = t.gateway.answers ++ [{ handler := id, reply := .event status record }] ∧
    t'.gateway.getEvent p.eventId = .event 200 record ∧ record.SameFacts p

theorem Recovered.unclaimed (h : Recovered p id t t') (hs : (machine client).step t a = some t') :
    Unclaimed t p := by
  obtain ⟨_, record, _, _, hget, hsame⟩ := h
  intro record' hg
  have hrun : (machine client).runFrom t [a] = some t' := by simp [Machine.runFrom, hs]
  have hg' := Gateway.getEvent_extends (events_extends hrun) hg
  cases hget.symm.trans (Gateway.State.getEvent_of_ok hg')
  exact hsame

-- What is true of every state while the handler `id` submits a payload again, after a state whose
-- deliveries were `before`.
structure Recovering (client : Client) (p : EventPayload) (id : ℕ) (before : State) (t : State) :
    Prop where
  unmoved : Unmoved t id
  unchanged : t.deliveries.filter (·.sent.tag.handler ≠ id) = before.deliveries →
    t.account.transactions = before.account.transactions
  answerable : ∀ j m, t.requests[j]? = some m → m.tag.handler = id → t.awaits m.tag →
    ∀ order now now', ∃ t', (machine client).runFrom t
      [.deliver j order now, .receive t.replies.length now'] = some t'
  recovers_iff : ∀ i now reply t', t.replies[i]? = some reply → reply.tag.handler = id →
    (machine client).step t (.receive i now) = some t' →
    (Recovered p id t t' ↔ Unclaimed t p)

theorem Resubmits.recovering (hc : Carried client p q request) (h : Resubmits client p q id t)
    (hl : Logged s.deliveries s.account.transactions) : Recovering client p id s t where
  unmoved := h.unmoved
  unchanged hd := by
    have hs := hl.replay_filter (fun _ => true) (by simp)
    rw [List.filter_true] at hs
    rw [← h.unmoved.table, hd, hs]
  answerable _ _ hm _ ha := answers_awaited hm ha
  recovers_iff _ _ _ _ hr he hs := ⟨fun hrec => hrec.unclaimed hs, h.receive hc.body hr he hs⟩

theorem Resubmits.begin (h : Sound client s) (hl : Logged s.deliveries s.account.transactions)
    (ht : Taken s.account.transactions q)
    (hs : (machine client).step s (.begin (.applyTransaction p)) = some t) :
    Resubmits client p q s.gateway.begun.length t := by
  have hm := State.step_moves hs
  have hst := h.moves hm
  have hlt := hl.moves hm
  cases hm
  case idle hn _ => cases hn
  case turn hb hu =>
    cases hb
    refine ⟨hst, hlt, hu.account ▸ ht, ?_, fun d hd he => ?_, fun r hr he => ?_⟩
    case refine_1 => simp [begun_begin hs]
    case refine_2 =>
      have := (h.delivered d (hu.deliveries ▸ hd)).lt
      omega
    case refine_3 =>
      have := h.replied r (hu.replies hr)
      omega

-- A payload that the Account Service holds and the Gateway does not is recovered by submitting it
-- again, just if the Gateway has not recorded other facts under its id before the reply arrives.
theorem resubmission_recovers (hr : (machine client).Reachable s) (hh : Holds s p)
    (hf : s.gateway.events.find? p.eventId = none)
    (hb : s.gateway.breaker.allowsRequest client s.gateway.clock) :
    ∃ t m, (machine client).step s (.begin (.applyTransaction p)) = some t ∧
      t.requests = s.requests ++ [m] ∧ m.tag.handler = s.gateway.begun.length ∧ t.awaits m.tag ∧
      ∀ more u, (machine client).runFrom t more = some u →
        Recovering client p s.gateway.begun.length s u := by
  have h := Sound.of_reachable hr
  have hl := logged_of_reachable hr
  obtain ⟨q, request, hc, ht⟩ := h.carried hh
  have hbegin := begin_applyTransaction hc hf hb
  have hs : (machine client).step s (.begin (.applyTransaction p)) =
      some (s.gatewayStep (s.gateway.begin client (.applyTransaction p))) := rfl
  refine ⟨_, _, hs, by rw [hbegin]; rfl, rfl, ?_, fun more u hu => ?_⟩
  case refine_1 => simp [hbegin, State.awaits, State.gatewayStep, Gateway.State.enter]
  case refine_2 => exact ((Resubmits.begin h hl ht hs).runFrom hc hu).recovering hc hl

theorem resubmission_recovers_lostReply : ∃ s, (machine .default).run lostReply = some s ∧
    ∃ t m, (machine .default).step s (.begin (.applyTransaction .sample)) = some t ∧
      t.requests = s.requests ++ [m] ∧ m.tag.handler = s.gateway.begun.length ∧ t.awaits m.tag ∧
      ∀ more u, (machine .default).runFrom t more = some u →
        Recovering .default .sample s.gateway.begun.length s u := by
  have hr : ((machine .default).run lostReply).map (fun s =>
      (s.deliveries.map fun d => (d.sent.tag.handler, d.inserted),
      s.gateway.events.rows.length, s.gateway.breaker.allowsRequest .default s.gateway.clock)) =
      some ([(0, true)], 0, true) := by decide +kernel
  obtain ⟨s, hs, he⟩ := Option.map_eq_some_iff.mp hr
  simp only [Prod.mk.injEq, List.map_eq_singleton_iff] at he
  obtain ⟨⟨d, hd, hdi, hins⟩, hrows, hb⟩ := he
  have hf : s.gateway.events.find? EventPayload.sample.eventId = none := by
    simp [Table.find?, List.length_eq_zero_iff.mp hrows]
  have hsub : s.gateway.submitted 0 = some .sample := by
    obtain ⟨t, ht, hrun⟩ := Machine.runFrom_cons hs
    refine Gateway.State.submitted_eq_some.mpr ?_
    exact Gateway.State.begun_of_prefix (begun_grows hrun) (begun_begin ht ▸ rfl)
  exact ⟨s, hs, resubmission_recovers ⟨_, hs⟩ ⟨d, by simp [hd], hins, hdi ▸ hsub⟩ hf hb⟩

-- Another payload under the id of the wide credit, which is the same number on the wire.
def nearCredit : EventPayload :=
  { EventPayload.sample with
    amount := ⟨false, 100000000000000002, 0⟩
    amount_pos := Decimal.isPos_iff.mp rfl }

-- The reply to the wide credit is lost, and then the other payload is submitted.
def overlappingRun : List Action :=
  .begin (.applyTransaction .wideCredit) ::
    .deliver 0 .inserted EventPayload.sample.eventTimestamp ::
    timeouts EventPayload.sample.eventTimestamp ++ [.begin (.applyTransaction nearCredit)]

-- The wide credit is submitted again, but the other payload is answered first.
def overtakenRun : List Action :=
  [
    .begin (.applyTransaction .wideCredit),
    .deliver 2 .inserted EventPayload.sample.eventTimestamp,
    .receive 1 EventPayload.sample.eventTimestamp,
    .deliver 2 .inserted EventPayload.sample.eventTimestamp,
    .receive 1 EventPayload.sample.eventTimestamp
  ]

theorem not_recovers_overtaken : ∃ s u answer, (machine .default).run overlappingRun = some s ∧
    Holds s .wideCredit ∧ s.gateway.events.find? EventPayload.wideCredit.eventId = none ∧
    s.gateway.breaker.allowsRequest .default s.gateway.clock ∧
    (machine .default).runFrom s overtakenRun = some u ∧ answer ∈ u.gateway.answers ∧
    answer.handler = s.gateway.begun.length ∧ answer.reply.status = 409 := by
  have hr : ((machine .default).run overlappingRun).map (fun s =>
      (s.deliveries.map fun d => (d.sent.tag.handler, d.inserted),
      s.gateway.events.rows.length, s.gateway.begun.length,
      s.gateway.breaker.allowsRequest .default s.gateway.clock)) =
      some ([(0, true)], 0, 2, true) := by decide +kernel
  have hu : ((machine .default).run (overlappingRun ++ overtakenRun)).map (fun u =>
      u.gateway.answers.map fun a => (a.handler, a.reply.status)) =
      some [(0, 503), (1, 201), (2, 409)] := by decide +kernel
  obtain ⟨s, hs, he⟩ := Option.map_eq_some_iff.mp hr
  obtain ⟨u, hu, ha⟩ := Option.map_eq_some_iff.mp hu
  simp only [Prod.mk.injEq, List.map_eq_singleton_iff] at he
  obtain ⟨⟨d, hd, hdi, hins⟩, hrows, hlen, hb⟩ := he
  rw [Machine.run, Machine.runFrom_append] at hu
  obtain ⟨t, ht, hu⟩ := Option.bind_eq_some_iff.mp hu
  cases ht.symm.trans hs
  have hf : s.gateway.events.find? EventPayload.wideCredit.eventId = none := by
    simp [Table.find?, List.length_eq_zero_iff.mp hrows]
  have hsub : s.gateway.submitted 0 = some .wideCredit := by
    obtain ⟨t, ht, hrun⟩ := Machine.runFrom_cons hs
    refine Gateway.State.submitted_eq_some.mpr ?_
    exact Gateway.State.begun_of_prefix (begun_grows hrun) (begun_begin ht ▸ rfl)
  have hm : (2, 409) ∈ u.gateway.answers.map fun a => (a.handler, a.reply.status) := by simp [ha]
  obtain ⟨answer, hm, he⟩ := List.mem_map.mp hm
  obtain ⟨hi, h409⟩ := Prod.mk.inj he
  exact ⟨s, u, answer, hs, ⟨d, by simp [hd], hins, hdi ▸ hsub⟩, hf, hb, hu, hm, hi.trans hlen.symm,
    h409⟩

end System
