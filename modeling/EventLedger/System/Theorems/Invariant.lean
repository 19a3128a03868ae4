import EventLedger.Account.Theorems.Handling
import EventLedger.Account.Theorems.Invariant
import EventLedger.System.Theorems.Steps

namespace System

open Http

open Gateway (Client Operation Sent)
open Account (Transactions TransactionRow Submits Taken)

variable {client : Client} {s s' : State} {a : Action} {b : Gateway.Action} {sent : Option Sent}
variable {event q : EventPayload} {m : Sent} {t u : Transactions}

-- A request has been sent for an operation that has begun.
def Asked (client : Client) (g : Gateway.State) (m : Sent) : Prop :=
  ∃ operation, g.begun[m.tag.handler]? = some operation ∧
    client.request operation = some m.request

-- A payload can be sent, and the Account Service has a record of what it is on the wire.
structure Accepted (client : Client) (t : Transactions) (event : EventPayload) : Prop where
  sendable : (client.request (.applyTransaction event)).isSome
  taken : ∃ q, EventPayload.ofJson event.body = .ok q ∧ Taken t q

theorem Accepted.extends (h : Accepted client t event) (he : t.Extends u) :
    Accepted client u event := by
  obtain ⟨q, hq, ht⟩ := h.taken
  exact ⟨h.sendable, q, hq, ht.extends he⟩

-- What holds of the tables and of the messages in every state.
structure Sound (client : Client) (s : State) : Prop where
  gateway : Gateway.Sound s.gateway
  account : Account.Consistent s.account.transactions
  requests : ∀ m ∈ s.requests, Asked client s.gateway m
  delivered : ∀ d ∈ s.deliveries, Asked client s.gateway d.sent
  inserted : ∀ d ∈ s.deliveries, d.inserted → ∃ q, Submits d.sent.request q ∧
    Account.insertedRow d.now q ∈ s.account.transactions.rows
  replied : ∀ r ∈ s.replies, r.tag.handler < s.gateway.begun.length
  replies : ∀ r ∈ s.replies, r.response.isSuccess → ∀ event,
    s.gateway.submitted r.tag.handler = some event → Accepted client s.account.transactions event
  recorded : ∀ row ∈ s.gateway.events.rows, ∃ now event, row = Gateway.insertedRow now event ∧
    Accepted client s.account.transactions event
  written : ∀ row ∈ s.account.transactions.rows, ∃ now q, ∃ event : EventPayload,
    row = Account.insertedRow now q ∧ EventPayload.ofJson event.body = .ok q

theorem Asked.mono {g g' : Gateway.State} (h : Asked client g m) (hb : g.begun <+: g'.begun) :
    Asked client g' m := by
  obtain ⟨operation, ho, hr⟩ := h
  exact ⟨operation, Gateway.State.begun_of_prefix hb ho, hr⟩

theorem Asked.lt {g : Gateway.State} (h : Asked client g m) : m.tag.handler < g.begun.length :=
  have ⟨_, ho, _⟩ := h
  (List.getElem?_eq_some_iff.mp ho).1

-- A request of a submission is a post of its payload.
theorem Asked.submission {g : Gateway.State} (h : Asked client g m)
    (hs : g.submitted m.tag.handler = some event) :
    client.request (.applyTransaction event) = some m.request := by
  obtain ⟨operation, ho, hr⟩ := h
  rw [Gateway.State.submitted_eq_some, ho, Option.some_inj] at hs
  exact hs ▸ hr

-- A request is a post of a payload only for a submission.
theorem Asked.submits {g : Gateway.State} (h : Asked client g m) (hq : Submits m.request q) :
    ∃ event, g.submitted m.tag.handler = some event ∧ EventPayload.ofJson event.body = .ok q := by
  obtain ⟨operation, ho, hr⟩ := h
  obtain ⟨body, hb, hj⟩ := hq.body
  cases operation
  case applyTransaction event =>
    have he := (Client.request_applyTransaction hr).2.1.symm.trans hb
    exact ⟨event, Gateway.State.submitted_eq_some.mpr ho, Option.some.inj he ▸ hj⟩
  case getBalance => cases hb.symm.trans (Client.request_getBalance hr).2.1
  case getAccount => cases hb.symm.trans (Client.request_getAccount hr).2.1

namespace Sound

theorem init : Sound client .init where
  gateway := .init
  account := .empty
  requests := by simp [State.init]
  delivered := by simp [State.init]
  inserted := by simp [State.init]
  replied := by simp [State.init]
  replies := by simp [State.init]
  recorded := by simp [State.init, Gateway.State.init, Table.empty]
  written := by simp [State.init, Account.State.init, Table.empty]

-- A successful reply to a submission means that its payload has been accepted.
theorem accepted (h : Sound client s) {a : Action} {id : ℕ} {now : Civil}
    {outcome : Gateway.Outcome} (ha : s.gatewayAction a = some (.settle id now outcome))
    (ho : outcome.isSuccess) (hs : s.gateway.submitted id = some event) :
    Accepted client s.account.transactions event := by
  cases a
  case receive i now =>
    obtain ⟨reply, hr, he⟩ := Option.map_eq_some_iff.mp ha
    cases he
    exact h.replies reply (List.mem_of_getElem? hr) ho event hs
  case fail =>
    cases ha
    cases ho
  all_goals cases ha

theorem length_of_accepted (h : Accepted client t event) : event.currency.length = 3 :=
  have ⟨_, _, hq, _⟩ := h
  (EventPayload.ofJson_body_iff.mp hq).1

theorem turn (h : Sound client s) (ha : s.gatewayAction a = some b)
    (ht : Turns client s b sent s') : Sound client s' := by
  have hm := Gateway.State.step_moves ht.step
  have hb := hm.begun
  have hst : ∀ event id handler, s.gateway.handlers id = some handler →
      handler.operation = .applyTransaction event → s.gateway.submitted id = some event :=
    fun _ id handler hh ho =>
      Gateway.State.submitted_eq_some.mpr (ho ▸ h.gateway.running id handler hh)
  constructor
  case gateway =>
    refine h.gateway.moves hm fun id now outcome handler event hs ho hh he => ?_
    subst hs
    exact length_of_accepted (h.accepted ha ho (hst event id handler hh he))
  case account => exact ht.account ▸ h.account
  case requests =>
    intro m hmem
    rw [ht.requests, List.mem_append, Option.mem_toList] at hmem
    rcases hmem with hmem | hmem
    case inl => exact (h.requests m hmem).mono hb
    case inr => exact hm.asked h.gateway m hmem
  case delivered => exact fun d hd => (h.delivered d (ht.deliveries ▸ hd)).mono hb
  case inserted =>
    rw [ht.account, ht.deliveries]
    exact h.inserted
  case replied => exact fun r hr => (h.replied r (ht.replies hr)).trans_le hb.length_le
  case replies =>
    intro r hr ho event hs
    have hr := ht.replies hr
    rw [Gateway.State.submitted_of_prefix hb (h.replied r hr)] at hs
    exact ht.account ▸ h.replies r hr ho event hs
  case recorded =>
    intro row hr
    rw [ht.account]
    rcases hm.rows_cases with he | ⟨id, now, outcome, handler, event, now', hs, ho, hh, he, _, hu⟩
    case inl => exact h.recorded row (he ▸ hr)
    case inr =>
      rw [hu, List.mem_append, List.mem_singleton] at hr
      rcases hr with hr | hr
      case inl => exact h.recorded row hr
      case inr =>
        subst hs
        exact ⟨now', event, hr, h.accepted ha ho (hst event id handler hh he)⟩
  case written => exact ht.account ▸ h.written

-- What the Account Service makes of a request that is under way.
theorem delivered_inserted (order : RowOrder TransactionRow) (now : Civil) (request : Request)
    (hi : (s.account.handle order now request).2.transactions.rows.length ≠
      s.account.transactions.rows.length) : ∃ q, Submits request q ∧
    Account.insertedRow now q ∈ (s.account.handle order now request).2.transactions.rows := by
  rcases s.account.handle_rows_cases order now request with he | ⟨q, hq, _, _, hu⟩
  case inl => exact absurd (congrArg (·.rows.length) he) hi
  case inr => exact ⟨q, hq, by simp [hu]⟩

theorem deliver (h : Sound client s) {i : ℕ} (hr : s.requests[i]? = some m)
    (order : RowOrder TransactionRow) (now : Civil) : Sound client (s.delivered i order now m) := by
  have hm := h.requests m (List.mem_of_getElem? hr)
  have he := s.account.handle_extends order now m.request
  constructor
  case gateway  => exact h.gateway
  case account  => exact h.account.handle order now m.request
  case requests => exact fun n hn => h.requests n (List.mem_of_mem_eraseIdx hn)
  case delivered =>
    intro d hd
    rcases List.mem_append.mp hd with hd | hd
    case inl => exact h.delivered d hd
    case inr => exact List.mem_singleton.mp hd ▸ hm
  case inserted =>
    intro d hd hi
    rcases List.mem_append.mp hd with hd | hd
    case inl =>
      obtain ⟨q, hq, hrow⟩ := h.inserted d hd hi
      exact ⟨q, hq, he.mem hrow⟩
    case inr =>
      cases List.mem_singleton.mp hd
      exact delivered_inserted order now m.request (of_decide_eq_true hi)
  case replied =>
    intro r hr
    rcases List.mem_append.mp hr with hr | hr
    case inl => exact h.replied r hr
    case inr => exact List.mem_singleton.mp hr ▸ hm.lt
  case replies =>
    intro r hr ho event hs
    rcases List.mem_append.mp hr with hr | hr
    case inl => exact (h.replies r hr ho event hs).extends he
    case inr =>
      cases List.mem_singleton.mp hr
      have hreq := hm.submission hs
      have ⟨hpost, hbody, _⟩ := Client.request_applyTransaction hreq
      obtain ⟨q, hq, ht⟩ := Account.State.handle_taken hpost ho
      obtain ⟨body, hb, hj⟩ := hq.body
      cases hbody.symm.trans hb
      exact ⟨by simp [hreq], q, hj, ht⟩
  case recorded =>
    intro row hrow
    obtain ⟨now', event, hw, ha⟩ := h.recorded row hrow
    exact ⟨now', event, hw, ha.extends he⟩
  case written =>
    intro row hrow
    rcases s.account.handle_rows_cases order now m.request with hu | ⟨q, hq, _, _, hu⟩
    case inl => exact h.written row (hu ▸ hrow)
    case inr =>
      have hrow : row ∈ s.account.transactions.rows ++ [Account.insertedRow now q] := hu ▸ hrow
      rcases List.mem_append.mp hrow with hrow | hrow
      case inl => exact h.written row hrow
      case inr =>
        obtain ⟨event, _, hj⟩ := hm.submits hq
        exact ⟨now, q, event, List.mem_singleton.mp hrow, hj⟩

theorem idle (h : Sound client s) (hi : Idles s s') : Sound client s' where
  gateway := hi.gateway ▸ h.gateway
  account := hi.transactions ▸ h.account
  requests m hm := hi.gateway ▸ h.requests m (hi.requests hm)
  delivered d hd := hi.gateway ▸ h.delivered d (hi.deliveries ▸ hd)
  inserted d hd := hi.transactions ▸ h.inserted d (hi.deliveries ▸ hd)
  replied r hr := hi.gateway ▸ h.replied r (hi.replies hr)
  replies r hr ho event hs := by
    rw [hi.transactions]
    exact h.replies r (hi.replies hr) ho event (hi.gateway ▸ hs)
  recorded := by
    rw [hi.gateway, hi.transactions]
    exact h.recorded
  written := hi.transactions ▸ h.written

theorem moves (h : Sound client s) (hm : Moves client s a s') : Sound client s' := by
  cases hm
  case turn ha ht  => exact h.turn ha ht
  case deliver hr  => exact h.deliver hr ..
  case idle _ hi   => exact h.idle hi

theorem step (h : Sound client s) (hs : (machine client).step s a = some s') : Sound client s' :=
  h.moves (State.step_moves hs)

theorem runFrom {as : List Action} (h : Sound client s)
    (hr : (machine client).runFrom s as = some s') : Sound client s' :=
  Machine.runFrom_invariant (fun _ _ _ hi hs => hi.step hs) h hr

theorem of_reachable (h : (machine client).Reachable s) : Sound client s :=
  h.invariant .init fun _ _ _ hi hs => hi.step hs

end Sound

end System
