import EventLedger.Common.Relay
import EventLedger.Gateway.Theorems.Answers
import EventLedger.System.Theorems.Convergence
import EventLedger.System.Theorems.Reading
import EventLedger.System.Theorems.Rejection
import EventLedger.System.Theorems.Statuses

namespace Account

open Http

variable {s : State} {order : RowOrder TransactionRow} {now : Civil} {t u : Transactions}
variable {p q : EventPayload} {request : Request}

-- The table holds the payload, or nothing that speaks against it.
inductive Admits (t : Transactions) (q : EventPayload) : Prop
  | taken : Taken t q → Admits t q
  | fresh : t.find? q.eventId = none →
    (∀ row ∈ t.rows, row.accountId = q.accountId → row.currency = q.currency) → Admits t q

theorem Taken.congr (h : Taken t p) (hs : p.SameFacts q) : Taken t q := by
  have ⟨row, record, hf, hr, hp⟩ := h
  exact ⟨row, record, hs.eventId ▸ hf, hr, hp.trans hs⟩

-- What is held later has been admitted before.
theorem Admits.of_taken (h : Taken u q) (hu : Consistent u) (he : t.Extends u) : Admits t q := by
  have ⟨row, record, hf, hr, hs⟩ := h
  cases ht : t.find? q.eventId
  case some row' =>
    cases hf.symm.trans (he.find? ht)
    exact .taken ⟨row, record, ht, hr, hs⟩
  case none =>
    apply Admits.fresh ht
    intro row' hm ha
    have ⟨hrow, _⟩ := Table.find?_eq_some.mp hf
    have ⟨now, event, hw⟩ := hu.written row hrow
    subst hw
    have hi : event.SameFacts q := (sameFacts_of_inserted hr).symm.trans hs
    have hc := hu.currency row' (he.mem hm) _ hrow (ha.trans hi.accountId.symm)
    exact hc.trans hi.currency

theorem State.handle_admits (hq : Submits request q) (ha : Admits s.transactions q)
    (hc : q.currency.length = 3) (hx : (Binary64.ofDecimal q.amount).isSome) :
    (s.handle order now request).1.isSuccess := by
  cases ha
  case taken ht => exact (handle_replays hq ht hx).2
  case fresh hf hr =>
    have hg : (store order now).refuses s.transactions q = none := by
      apply refuses_eq_none_iff.mpr
      intro currency hm
      have ⟨row, hm, he⟩ := Option.map_eq_some_iff.mp hm
      have ⟨hm, ha⟩ := Table.mem_select.mp (List.mem_of_head? hm)
      exact he ▸ hr row hm (of_decide_eq_true ha)
    have hp := (applyTransaction_put order now q s.transactions).of_fresh hf hg
      (congrArg (Except.mapError _) (transactionFromRow_inserted hc))
    have hs : q.stored.amount.value = q.amount.value := q.stored_sameFacts.amount
    have hd : (Binary64.ofDecimal (storedRecord now q).amount).isSome :=
      Binary64.ofDecimal_congr (congrArg abs hs) ▸ hx
    rw [handle_submits hq, hp.1, answer,
      Response.render_of_isStandard ((storedRecord now q).modelFields_isStandard hd)]
    rfl

end Account

namespace System

open Http

open Account (Admits)
open Gateway (Client)

variable {client : Client} {s t u : State} {p q : EventPayload}

-- The client can send a payload, and the Account Service admits what arrives.
structure Admissible (client : Client) (s : State) (event : EventPayload) : Prop where
  carries : client.Carries (.applyTransaction event)
  arrives : ∃ body sent, event.encode client.dumps = some body ∧
    EventPayload.ofJson body = .ok sent ∧ Admits s.account.transactions sent

-- What a payload must be like for a submission of it to be answered with success at some time.
-- The one that is posted may write the numbers of its metadata in another way.
inductive Acceptable (client : Client) (s : State) (p : EventPayload) : Prop
  | recorded {record : EventRecord} :
    Gateway.getEvent s.gateway.events p.eventId = .ok (some record) → record.SameFacts p →
    Acceptable client s p
  | postable {event : EventPayload} : s.gateway.events.find? p.eventId = none →
    event.SameFacts p → Admissible client s event → Acceptable client s p

-- A later submission of the payload is answered with success.
def Succeeds (client : Client) (s : State) (p : EventPayload) : Prop :=
  ∃ as u answer, (machine client).runFrom s as = some u ∧ answer ∈ u.gateway.answers ∧
    s.gateway.begun.length ≤ answer.handler ∧ u.gateway.submitted answer.handler = some p ∧
    answer.reply.status < 400

-- What holds of the answers of success too.
structure Vouched (client : Client) (s : State) : Prop where
  sound : Sound client s
  faithful : Gateway.Faithful s.gateway

theorem Vouched.of_reachable (h : (machine client).Reachable s) : Vouched client s := by
  apply h.invariant
  case hi => exact ⟨.init, by simp [Gateway.Faithful, machine, State.init, Gateway.State.init]⟩
  case hs =>
    intro s a s' hi hs
    refine ⟨hi.sound.step hs, ?_⟩
    cases State.step_moves hs
    case turn ht  => exact hi.faithful.step hi.sound.gateway ht.step
    case deliver  => exact hi.faithful
    case idle hi' => exact hi'.gateway ▸ hi.faithful

-- The path of an account depends on nothing else of a payload.
theorem carries_congr (h : p.accountId = q.accountId) (hc : client.Carries (.applyTransaction p)) :
    client.Carries (.applyTransaction q) := by
  have hp : Gateway.Operation.path (.applyTransaction p) =
      Gateway.Operation.path (.applyTransaction q) := congrArg Gateway.transactionsPath h
  have ha : Gateway.Operation.accountId (.applyTransaction p) =
      Gateway.Operation.accountId (.applyTransaction q) := h
  exact ⟨ha ▸ hc.nonempty, ha ▸ hc.segment, ha ▸ hc.no_dots, ha ▸ hc.no_escape, hp ▸ hc.length,
    hp ▸ hc.quoted_length⟩

theorem accountId_of_wire (h : EventPayload.ofJson p.body = .ok q) : q.accountId = p.accountId := by
  have ⟨_, _, _, _, he⟩ := EventPayload.ofJson_body_iff.mp h
  exact he ▸ rfl

-- The account of what the Account Service holds is one that a path carries.
theorem carries_of_taken (h : (machine client).Reachable s)
    (ht : Account.Taken s.account.transactions q) (ha : p.accountId = q.accountId) :
    client.Carries (.applyTransaction p) := by
  have hs := Sound.of_reachable h
  have ⟨row, record, hf, hr, hq⟩ := ht
  have ⟨hm, _⟩ := Table.find?_eq_some.mp hf
  have ⟨d, hd, _, q', hsub, he⟩ := (written_of_reachable h).source row hm
  subst he
  have hq : q'.SameFacts q := (Account.sameFacts_of_inserted hr).symm.trans hq
  have ⟨p', hp', hj⟩ := (hs.delivered d hd).submits hsub
  have ha' : q'.accountId = p'.accountId := accountId_of_wire hj
  have hreq := (hs.delivered d hd).submission hp'
  apply carries_congr (ha'.symm.trans (hq.accountId.trans ha.symm))
  apply (client.reaches_iff_carries (.applyTransaction p')).2 _ hreq |>.mp
  rw [hsub.route, ha']
  rfl

-- What the Gateway has recorded has been carried to the Account Service, which has taken it.
theorem exists_taken_of_recorded {record : EventRecord} (h : (machine client).Reachable s)
    (hg : Gateway.getEvent s.gateway.events p.eventId = .ok (some record))
    (hsame : record.SameFacts p) : ∃ event sent : EventPayload, event.SameFacts p ∧
      client.Carries (.applyTransaction event) ∧
      event.encode client.dumps = some event.body ∧ EventPayload.ofJson event.body = .ok sent ∧
      Account.Taken s.account.transactions sent := by
  have ⟨row, hf, hread⟩ := Gateway.getEvent_eq_some hg
  have ⟨hm, _⟩ := Table.find?_eq_some.mp hf
  have ⟨now, event, he, hreq, sent, hq, ht⟩ := (Sound.of_reachable h).recorded row hm
  subst he
  have ⟨_, he⟩ := Gateway.eventFromRow_inserted_iff.mp hread
  subst he
  have hc := carries_of_taken h ht (accountId_of_wire hq).symm
  exact ⟨event, sent, event.stored_sameFacts.symm.trans hsame, hc, Client.encode_of_request hreq,
    hq, ht⟩

theorem Succeeds.acceptable (h : (machine client).Reachable s) (hp : Succeeds client s p) :
    Acceptable client s p := by
  have ⟨as, u, answer, hu, ha, _, hsub, hr⟩ := hp
  have hru := h.runFrom hu
  have hv := Vouched.of_reachable hru
  have ⟨_, record, _, hg, hsame⟩ := hv.faithful answer ha p hsub hr
  cases hf : s.gateway.events.find? p.eventId
  case some row =>
    have ⟨record', hg'⟩ := (Sound.of_reachable h).gateway.getEvent hf
    cases hg.symm.trans (Gateway.getEvent_extends (events_extends hu) hg')
    exact .recorded hg' hsame
  case none =>
    have ⟨event, sent, hs, hc, hb, hq, ht⟩ := exists_taken_of_recorded hru hg hsame
    exact .postable hf hs
      ⟨hc, _, sent, hb, hq, .of_taken ht hv.sound.account (transactions_extends hu)⟩

theorem currency_of_wire (h : EventPayload.ofJson p.body = .ok q) : q.currency = p.currency := by
  have ⟨_, _, _, _, he⟩ := EventPayload.ofJson_body_iff.mp h
  exact he ▸ rfl

-- The request of a payload that the path carries.
theorem Admissible.carried (h : Admissible client s p) : ∃ q request,
    Carried client p q request ∧ Admits s.account.transactions q := by
  obtain ⟨body, q, hb, hq, ha⟩ := h.arrives
  obtain ⟨_, _, rfl⟩ := EventPayload.encode_eq_some.mp hb
  have ⟨_, x, _, _, he⟩ := EventPayload.ofJson_body_iff.mp hq
  have haddr : Addressable client p := ⟨h.carries, by simp [hb]⟩
  have ⟨request, hr⟩ := Option.isSome_iff_exists.mp haddr.request
  have hbody := (Client.request_applyTransaction hr).2.1
  have hroute := (client.reaches_iff_carries (.applyTransaction p)).2 _ hr |>.mpr h.carries
  refine ⟨q, request, ⟨hr, ⟨?_, p.body, hbody, hq⟩, hq, ?_⟩, ha⟩
  case refine_1 => exact accountId_of_wire hq ▸ hroute
  case refine_2 => exact he ▸ Option.isSome_iff_exists.mpr ⟨x, x.ofDecimal_readBack⟩

-- What the Gateway answers when the Account Service has taken a payload that it has no event of.
theorem answers_of_success {m : Gateway.Sent} {i attempt : ℕ}
    {order : RowOrder Account.TransactionRow} {now : Civil}
    (hf : t.gateway.events.find? p.eventId = none) (hl : p.currency.length = 3)
    (hm : t.requests[i]? = some m)
    (hh : t.gateway.handlers m.tag.handler = some ⟨.applyTransaction p, attempt, .calling⟩)
    (ho : (t.account.handle order now m.request).1.isSuccess)
    (hu : (machine client).runFrom t [.deliver i order now, .receive t.replies.length now] =
      some u) :
    u.gateway.answers = t.gateway.answers ++
      [{ handler := m.tag.handler, reply := .event 201 (Gateway.storedRecord now p) }] := by
  have ⟨hs, hrep⟩ := receive_of_round hm hu
  have ha : (t.delivered i order now m).gatewayAction (.receive t.replies.length now) =
      some (.settle m.tag.handler now (.response (t.account.handle order now m.request).1)) :=
    congrArg (Option.map _) hrep
  cases State.step_moves hs
  case idle hn _ => simp [ha] at hn
  case turn hb ht =>
    cases hb.symm.trans ha
    obtain ⟨g, hg, he⟩ := Option.map_eq_some_iff.mp ht.step
    have he := (Prod.mk.inj he).1
    subst he
    have ho : Gateway.Outcome.isSuccess
        (.response (t.account.handle order now m.request).1) := ho
    exact Gateway.State.settle_success_fresh hh ho hf hl hg

-- A submission that the Account Service admits is created by its first attempt.
theorem creates_of_admits {request : Request} (hc : Carried client p q request)
    (ha : Admits s.account.transactions q) (hf : s.gateway.events.find? p.eventId = none)
    (hb : s.gateway.breaker.allowsRequest client s.gateway.clock) : Succeeds client s p := by
  have hl := (EventPayload.ofJson_body_iff.mp hc.body).1
  have ⟨m, v, hv, hr⟩ := exists_launched hc hf hb
  have ⟨u, hu, hrun⟩ := hv.round .inserted p.eventTimestamp
  have hok : (v.account.handle .inserted p.eventTimestamp m.request).1.isSuccess := by
    rw [hr, hv.account]
    exact Account.State.handle_admits hc.submits ha (currency_of_wire hc.body ▸ hl) hc.amount
  have hh : v.gateway.handlers m.tag.handler = some ⟨.applyTransaction p, 1, .calling⟩ := by
    rw [hv.tag, hv.calling]
  have hans := answers_of_success (hv.events ▸ hf) hl hv.sent hh hok hu
  rw [hv.tag] at hans
  have hbegun : u.gateway.begun[s.gateway.begun.length]? = some (.applyTransaction p) :=
    Gateway.State.begun_of_prefix (begun_grows hu) (by simp [begun_begin hv.step])
  refine ⟨_, u, _, hrun, hans ▸ List.mem_append_right _ List.mem_cons_self, le_rfl, ?_, ?_⟩
  case refine_1 => exact Gateway.State.submitted_eq_some.mpr hbegun
  case refine_2 => exact (by decide : 201 < 400)

-- What succeeds later succeeds.
theorem Succeeds.of_runFrom {as : List Action} (hs : (machine client).runFrom s as = some t)
    (h : Succeeds client t p) : Succeeds client s p := by
  have ⟨bs, u, answer, hu, ha, hl, hsub, hr⟩ := h
  have hb := (begun_grows hs).length_le
  refine ⟨as ++ bs, u, answer, ?_, ha, hb.trans hl, hsub, hr⟩
  rw [Machine.runFrom_append, hs]
  exact hu

theorem Succeeds.of_recorded {record : EventRecord}
    (hg : Gateway.getEvent s.gateway.events p.eventId = .ok (some record))
    (hs : record.SameFacts p) : Succeeds client s p := by
  have hstep : (machine client).step s (.begin (.applyTransaction p)) =
      some (s.gatewayStep (s.gateway.begin client (.applyTransaction p))) := rfl
  have hat : Gateway.AnswersAtOnce client s.gateway p (.event 200 record) :=
    Gateway.answersAtOnce_same hg hs
  refine ⟨[.begin (.applyTransaction p)], _, _, by rw [Machine.runFrom, hstep]; rfl,
    hat.answers ▸ List.mem_append_right _ List.mem_cons_self, le_rfl, ?_, ?_⟩
  case refine_1 =>
    apply Gateway.State.submitted_eq_some.mpr
    simp [begun_begin hstep]
  case refine_2 => exact (by decide : 200 < 400)

-- Once a payload has been accepted, so is each of the same facts.
theorem Succeeds.congr (h : (machine client).Reachable s) (hp : Succeeds client s p)
    (hs : p.SameFacts q) : Succeeds client s q := by
  have ⟨as, u, answer, hu, ha, _, hsub, hr⟩ := hp
  have ⟨_, record, _, hg, hsame⟩ :=
    (Vouched.of_reachable (h.runFrom hu)).faithful answer ha p hsub hr
  exact .of_runFrom hu (.of_recorded (hs.eventId ▸ hg) (hsame.trans hs))

theorem Acceptable.succeeds (h : (machine client).Reachable s) (hp : Acceptable client s p) :
    Succeeds client s p := by
  cases hp
  case recorded hg hs => exact .of_recorded hg hs
  case postable event hf hs ha =>
    obtain ⟨q, request, hc, ha⟩ := ha.carried
    obtain ⟨duration, t, ht, hb, hev, hacc, _, _⟩ := exists_wait client s
    have hsucceeds : Succeeds client t event :=
      creates_of_admits hc (hacc ▸ ha) (hev ▸ hs.eventId ▸ hf) hb
    have hrun : (machine client).runFrom s [.wait duration] = some t := by
      simp [Machine.runFrom, ht]
    exact (hsucceeds.of_runFrom hrun).congr h hs

-- What can still be accepted. The rest never is, however often it is submitted.
theorem succeeds_iff_acceptable (h : (machine client).Reachable s) (p : EventPayload) :
    Succeeds client s p ↔ Acceptable client s p :=
  ⟨Succeeds.acceptable h, Acceptable.succeeds h⟩

-- A debit in another currency stays refused for ever.
theorem succeeds_iff_acceptable_foreign : ∃ s,
    (machine .default).run (recordingRun .sample) = some s ∧ ¬Succeeds .default s foreignDebit := by
  have hr : ((machine .default).run (recordingRun .sample)).map (fun s =>
      (s.gateway.events.find? foreignDebit.eventId,
        s.account.transactions.rows.map fun row => (row.eventId, row.accountId, row.currency))) =
      some (none,
        [(EventPayload.sample.eventId, EventPayload.sample.accountId, "USD".toList)]) := by
    decide +kernel
  have ⟨s, hs, he⟩ := Option.map_eq_some_iff.mp hr
  have ⟨hn, hrows⟩ := Prod.mk.inj he
  have ⟨row, hrow, hfacts⟩ := List.map_eq_singleton_iff.mp hrows
  refine ⟨s, hs, (succeeds_iff_acceptable ⟨_, hs⟩ foreignDebit).not.mpr fun ha => ?_⟩
  have hid : row.eventId ≠ foreignDebit.eventId := by
    rw [(Prod.mk.inj hfacts).1]
    decide
  have hc : row.currency ≠ foreignDebit.currency := by
    rw [(Prod.mk.inj (Prod.mk.inj hfacts).2).2]
    decide
  have hm : row ∈ s.account.transactions.rows := by simp [hrow]
  cases ha
  case recorded hg _ =>
    cases hg.symm.trans (Gateway.getEvent_none hn)
  case postable event hfind hs ha =>
    obtain ⟨body, q, hb, hq, ht⟩ := ha.arrives
    obtain ⟨_, _, rfl⟩ := EventPayload.encode_eq_some.mp hb
    have ⟨_, _, _, _, he⟩ := EventPayload.ofJson_body_iff.mp hq
    subst he
    cases ht
    case taken ht =>
      have ⟨row', _, hf', _⟩ := ht
      have ⟨hm', hk⟩ := Table.find?_eq_some.mp hf'
      rw [hrow, List.mem_singleton] at hm'
      exact hid (hm' ▸ hk.trans hs.eventId)
    case fresh hall =>
      have hacc : row.accountId = event.accountId :=
        (Prod.mk.inj (Prod.mk.inj hfacts).2).1.trans hs.accountId.symm
      exact hc ((hall row hm hacc).trans hs.currency)

end System
