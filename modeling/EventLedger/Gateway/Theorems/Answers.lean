import EventLedger.Gateway.Theorems.Counters

-- Where the answers of the handlers come from.
namespace Gateway

open Http

variable {client : Client} {s s' : State} {id : ℕ} {operation : Operation}
variable {sent : Option Sent} {answer : Answer} {a : Action}

-- What the handler of a read makes of what its call has returned.
def Operation.readReply : Operation → Document → Reply
  | applyTransaction _, _ => .internalError
  | getBalance _, payload =>
    match BalanceResponse.ofJson payload with
    | .ok balance => .balance balance
    | .error _    => .internalError
  | getAccount _, payload =>
    match AccountDetailsResponse.ofJson payload with
    | .ok details => .account details
    | .error _    => .internalError

theorem getEvent_eq_error {t : Events} {eventId : Text} {e : InsertError}
    (h : getEvent t eventId = .error e) :
    ∃ row e', t.find? eventId = some row ∧ eventFromRow row = .error e' := by
  cases hf : t.find? eventId
  case none => simp [getEvent_none hf] at h
  case some row =>
    rw [getEvent_some hf] at h
    cases hr : eventFromRow row
    case error e' => exact ⟨row, e', rfl, hr⟩
    case ok       => simp [hr, Except.mapError, Except.map] at h

theorem getEvent_read {t : Events} {eventId : Text} {row : EventRow} {record : EventRecord}
    (hf : t.find? eventId = some row) (hr : eventFromRow row = .ok record) :
    getEvent t eventId = .ok (some record) := by
  rw [getEvent_some hf, hr]
  rfl

-- What the handler of an operation answers, and from what: its table before and after the step, and
-- the verdict on the attempt that it has awaited, if there is one.
inductive Says (client : Client) (t : Events) (operation : Operation) :
    Option Verdict → Events → Reply → Prop
  | replayed {event row record verdict} : operation = .applyTransaction event →
    t.find? event.eventId = some row → eventFromRow row = .ok record → record.SameFacts event →
    Says client t operation verdict t (.event 200 record)
  | conflict {event row record verdict} : operation = .applyTransaction event →
    t.find? event.eventId = some row → eventFromRow row = .ok record → ¬record.SameFacts event →
    Says client t operation verdict t (.refused 409 conflictDetail)
  | stale {event row e verdict} : operation = .applyTransaction event →
    t.find? event.eventId = some row → eventFromRow row = .error e →
    Says client t operation verdict t .internalError
  | circuitOpen : Says client t operation none t (.refused 503 (circuitOpenDetail operation))
  | unsendable : client.request operation = none → Says client t operation none t .internalError
  | unavailable : Says client t operation (some .unavailable) t
      (.refused 503 (unavailableDetail operation))
  | rejected {status detail} : Says client t operation (some (.rejected status detail)) t
      (.refused status detail)
  | escaped : Says client t operation (some .escaped) t .internalError
  | created {event now payload u record} : operation = .applyTransaction event →
    t.find? event.eventId = none → u.rows = t.rows ++ [insertedRow now event] →
    eventFromRow (insertedRow now event) = .ok record →
    Says client t operation (some (.returned payload)) u (.event 201 record)
  | unread {event now payload u e} : operation = .applyTransaction event →
    t.find? event.eventId = none → u.rows = t.rows ++ [insertedRow now event] →
    eventFromRow (insertedRow now event) = .error e →
    Says client t operation (some (.returned payload)) u .internalError
  | shown {payload} : operation.submits = false →
    Says client t operation (some (.returned payload)) t (operation.readReply payload)

-- Every answer that is new is one that the handler says.
def Speaks (client : Client) (s : State) (operation : Operation) (verdict : Option Verdict) (id : ℕ)
    (s' : State) : Prop :=
  ∀ answer ∈ s'.answers, answer ∈ s.answers ∨
    answer.handler = id ∧ Says client s.events operation verdict s'.events answer.reply

namespace Speaks

variable {verdict : Option Verdict} {reply : Reply} {event : EventPayload} {u : Events}

theorem of_same (h : s'.answers = s.answers) : Speaks client s operation verdict id s' :=
  fun _ ha => .inl (h ▸ ha)

theorem of_answer (h : s'.answers = s.answers ++ [{ handler := id, reply }])
    (hr : Says client s.events operation verdict s'.events reply) :
    Speaks client s operation verdict id s' := by
  intro answer ha
  rw [h, List.mem_append, List.mem_singleton] at ha
  apply ha.imp_right
  intro he
  exact he ▸ ⟨rfl, hr⟩

theorem send (client : Client) (s : State) (id : ℕ) (operation : Operation) (attempt : ℕ) :
    Speaks client s operation none id (s.send client id operation attempt).1 := by
  unfold State.send
  split
  case h_1 hr => exact of_answer rfl (.unsendable hr)
  case h_2    => exact of_same rfl

theorem call (client : Client) (s : State) (id : ℕ) (operation : Operation) :
    Speaks client s operation none id (s.call client id operation).1 := by
  unfold State.call
  split
  case isTrue  => exact send client s id operation 1
  case isFalse => exact of_answer rfl .circuitOpen

theorem submitEvent (client : Client) (s : State) (id : ℕ) (event : EventPayload) :
    Speaks client s (.applyTransaction event) none id (s.submitEvent client id event).1 := by
  unfold State.submitEvent
  split
  case h_1 e hg =>
    have ⟨row, e, hf, hr⟩ := getEvent_eq_error hg
    exact of_answer rfl (.stale rfl hf hr)
  case h_2 => exact call client s id (.applyTransaction event)
  case h_3 existing hg =>
    have ⟨row, hf, hr⟩ := getEvent_eq_some hg
    split
    case isTrue hs  => exact of_answer rfl (.replayed rfl hf hr (sameEvent_iff.mp hs))
    case isFalse hs => exact of_answer rfl (.conflict rfl hf hr (sameEvent_iff.not.mp hs))

theorem begin (client : Client) (s : State) (operation : Operation) :
    Speaks client (s.start operation) operation none s.begun.length
      (s.begin client operation).1 := by
  cases operation
  case applyTransaction event =>
    exact submitEvent client (s.start (.applyTransaction event)) s.begun.length event
  case getBalance accountId =>
    exact call client (s.start (.getBalance accountId)) s.begun.length (.getBalance accountId)
  case getAccount accountId =>
    exact call client (s.start (.getAccount accountId)) s.begun.length (.getAccount accountId)

theorem inserted {result : Except InsertError (EventRecord × Bool)} {s : State}
    (client : Client) (id : ℕ) (payload : Document) (h : (store now).Put s.events event result u) :
    Speaks client s (.applyTransaction event) (some (.returned payload)) id
      (s.inserted id u result) := by
  cases h
  case replayed hf hr hs =>
    have hs := Repository.sameEvent_iff.mp hs
    exact of_answer rfl (.replayed rfl hf (Except.mapError_eq_ok hr) hs)
  case conflicting hf hr hs =>
    have hs := Repository.sameEvent_iff.not.mp hs
    exact of_answer rfl (.conflict rfl hf (Except.mapError_eq_ok hr) hs)
  case stale hf hr =>
    have ⟨e, hr', he⟩ := Except.mapError_eq_error hr
    subst he
    exact of_answer rfl (.stale rfl hf hr')
  case refused hg => cases hg
  case inserted hf _ hr hu =>
    exact of_answer rfl (.created rfl hf hu (Except.mapError_eq_ok hr))
  case unread hf _ hr hu =>
    have ⟨e, hr', he⟩ := Except.mapError_eq_error hr
    subst he
    exact of_answer rfl (.unread rfl hf hu hr')

theorem returned (client : Client) (s : State) (id : ℕ) (now : Civil) (operation : Operation)
    (payload : Document) : Speaks client s operation (some (.returned payload)) id
      (s.returned id now operation payload) := by
  cases operation
  case applyTransaction event =>
    exact inserted client id payload (insertAppliedEvent_put now event s.events)
  case getBalance => exact of_answer rfl (.shown rfl)
  case getAccount => exact of_answer rfl (.shown rfl)

theorem resume (client : Client) (s : State) (id : ℕ) (now : Civil) (operation : Operation)
    (attempt : ℕ) (verdict : Verdict) : Speaks client s operation (some verdict) id
      (s.resume id now operation attempt verdict) := by
  cases verdict
  case retry       => exact of_same rfl
  case unavailable => exact of_answer rfl .unavailable
  case rejected    => cases operation <;> exact of_answer rfl .rejected
  case returned p  => exact returned client s id now operation p
  case escaped     => exact of_answer rfl .escaped

end Speaks

-- The verdict is the one on the attempt that the step ends.
def Hears (client : Client) (s : State) (a : Action) (id : ℕ) (operation : Operation)
    (verdict : Option Verdict) : Prop :=
  ∀ v, verdict = some v → ∃ now outcome attempt, a = .settle id now outcome ∧
    s.handlers id = some ⟨operation, attempt, .calling⟩ ∧
    (client.settle s.clock attempt s.breaker outcome).1 = v

theorem says_of_step (hs : Sound s) (h : s.step client a = some (s', sent))
    (ha : answer ∈ s'.answers) : answer ∈ s.answers ∨ ∃ operation verdict,
      s'.begun[answer.handler]? = some operation ∧
      Says client s.events operation verdict s'.events answer.reply ∧
      Hears client s a answer.handler operation verdict := by
  have hgrows := (State.step_moves h).begun
  have hrunning : ∀ {id handler}, s.handlers id = some handler →
      s'.begun[id]? = some handler.operation :=
    fun hh => State.begun_of_prefix hgrows (hs.running _ _ hh)
  cases a
  case begin operation =>
    have ⟨_, ht, _⟩ := Turn.begin client s operation
    have he : s.begin client operation = (s', sent) := Option.some.inj h
    have hb : s'.begun = s.begun ++ [operation] := by
      have hb := ht.begun
      rwa [he] at hb
    have hsp := Speaks.begin client s operation
    rw [he] at hsp
    apply (hsp answer ha).imp_right
    intro ⟨hid, hsays⟩
    exact ⟨operation, none, by simp [hid, hb], hsays, nofun⟩
  case settle id now outcome =>
    have ⟨u, hu, he⟩ := Option.map_eq_some_iff.mp h
    cases he
    have ⟨operation, attempt, _, _, hh, _⟩ := State.settle_cases hu
    have he := (State.settle_eq hh).symm.trans hu
    rw [Option.some_inj] at he
    have hsp := Speaks.resume client
      { s with breaker := (client.settle s.clock attempt s.breaker outcome).2 } id now operation
      attempt (client.settle s.clock attempt s.breaker outcome).1
    rw [he] at hsp
    apply (hsp answer ha).imp_right
    intro ⟨hid, hsays⟩
    subst hid
    refine ⟨operation, _, hrunning hh, hsays, ?_⟩
    intro v hv
    exact ⟨now, outcome, attempt, rfl, hh, Option.some.inj hv⟩
  case wake id =>
    have ⟨operation, attempt, _, hh, he⟩ := State.wake_cases h
    have hsp := Speaks.send client s id operation (attempt + 1)
    rw [← he] at hsp
    apply (hsp answer ha).imp_right
    intro ⟨hid, hsays⟩
    exact ⟨operation, none, hid ▸ hrunning hh, hsays, nofun⟩
  case wait duration =>
    have ⟨u, hu, he⟩ := Option.map_eq_some_iff.mp h
    cases he
    simp only [State.wait, Option.ite_none_right_eq_some, Option.some.injEq] at hu
    cases hu.2
    exact .inl ha
  case restart =>
    cases Option.some.inj h
    exact .inl ha

theorem Client.settle_rejected {clock : ℚ} {b : Breaker} {outcome : Outcome} {status : ℕ}
    {detail : Json} (h : (client.settle clock attempt b outcome).1 = .rejected status detail) :
    ∃ r, outcome = .response r ∧ r.status = status := by
  have hfailed : (client.failed clock attempt b).1 ≠ .rejected status detail := by
    unfold failed delay
    split_ifs <;> simp
  cases outcome
  case error e =>
    simp only [settle] at h
    split at h
    case isTrue  => exact absurd h hfailed
    case isFalse => cases h
  case response r =>
    simp only [settle] at h
    split at h
    case isTrue => exact absurd h hfailed
    case isFalse =>
      refine ⟨r, rfl, ?_⟩
      split at h
      case isTrue =>
        split at h
        case h_1 => exact (Verdict.rejected.inj h).1
        case h_2 => cases h
      case isFalse =>
        split at h
        case h_1 => cases h
        case h_2 => cases h

theorem Hears.returned {payload : Document}
    (h : Hears client s a id operation (some (.returned payload))) : ∃ now status,
    a = .settle id now (.response { status, body := .json payload }) ∧ status < 400 := by
  have ⟨now, outcome, attempt, hset, _, hv⟩ := h _ rfl
  have hj := client.settle_judges s.clock attempt s.breaker outcome
  rw [hv] at hj
  cases hj
  case returned status hlt hr => exact ⟨now, status, hr ▸ hset, hlt⟩

theorem Hears.rejected {status : ℕ} {detail : Json}
    (h : Hears client s a id operation (some (.rejected status detail))) : 400 ≤ status ∧
      ∃ now r, a = .settle id now (.response r) ∧ r.status = status := by
  have ⟨now, outcome, attempt, hset, _, hv⟩ := h _ rfl
  have hj := client.settle_judges s.clock attempt s.breaker outcome
  have ⟨r, hr, hst⟩ := Client.settle_rejected hv
  rw [hv] at hj
  cases hj
  case rejected h₄ _ => exact ⟨h₄, now, r, hr ▸ hset, hst⟩

theorem Operation.readReply_cases (h : operation.submits = false) (payload : Document) :
    operation.readReply payload = .internalError ∨
      (operation.readReply payload).status = 200 := by
  cases operation
  case applyTransaction => cases h
  case getBalance =>
    simp only [readReply]
    split
    case h_1 => exact .inr rfl
    case h_2 => exact .inl rfl
  case getAccount =>
    simp only [readReply]
    split
    case h_1 => exact .inr rfl
    case h_2 => exact .inl rfl

-- The success of a read is made of a response that its handler has awaited.
theorem read_of_step (hs : Sound s) (h : s.step client a = some (s', sent))
    (ha : answer ∈ s'.answers) (ho : s'.begun[answer.handler]? = some operation)
    (hr : operation.submits = false) (hok : answer.reply.status < 400) :
    answer ∈ s.answers ∨ ∃ now status payload, a = .settle answer.handler now
      (.response { status, body := .json payload }) ∧ status < 400 ∧
      answer.reply = operation.readReply payload := by
  apply (says_of_step hs h ha).imp_right
  intro ⟨operation', verdict, ho', hsays, hears⟩
  cases ho'.symm.trans ho
  generalize answer.reply = reply at hok hsays
  generalize s'.events = u at hsays
  cases hsays
  case shown payload _ =>
    have ⟨now, status, hset, hlt⟩ := hears.returned
    exact ⟨now, status, payload, hset, hlt, rfl⟩
  case replayed hop _ _ _ => cases hop ▸ hr
  case created hop _ _ _  => cases hop ▸ hr
  case rejected           => exact absurd hok (Nat.not_lt.mpr hears.rejected.1)
  all_goals exact absurd hok (by simp [Reply.status])

-- A client error that is not the Gateway's own conflict.
def Reply.isRejection : Reply → Prop
  | refused status detail => 400 ≤ status ∧ status < 500 ∧ detail ≠ conflictDetail
  | _                     => False

-- The event conflicts with a record of the table.
def Conflicts (t : Events) (event : EventPayload) : Prop :=
  ∃ record, getEvent t event.eventId = .ok (some record) ∧ ¬record.SameFacts event

-- A client error comes from the Gateway's own table, or from a response that its handler has
-- awaited.
theorem clientError_of_step (hs : Sound s) (h : s.step client a = some (s', sent))
    (ha : answer ∈ s'.answers) (h₄ : 400 ≤ answer.reply.status) (h₅ : answer.reply.status < 500) :
    answer ∈ s.answers ∨
      (answer.reply = .refused 409 conflictDetail ∧
        ∃ event, s'.submitted answer.handler = some event ∧ Conflicts s'.events event) ∨
      ∃ now r, a = .settle answer.handler now (.response r) ∧ 400 ≤ r.status ∧ r.status < 500 := by
  apply (says_of_step hs h ha).imp_right
  intro ⟨operation, verdict, ho, hsays, hears⟩
  generalize answer.reply = reply at h₄ h₅ hsays
  generalize s'.events = u at hsays
  cases hsays
  case conflict event row record hop hf hr hn =>
    have hp := State.submitted_eq_some.mpr (hop ▸ ho)
    exact .inl ⟨rfl, event, hp, record, getEvent_read hf hr, hn⟩
  case rejected status detail =>
    have ⟨_, now, r, hset, hst⟩ := hears.rejected
    exact .inr ⟨now, r, hset, hst ▸ h₄, hst ▸ h₅⟩
  case shown payload hop =>
    cases operation.readReply_cases hop payload
    case inl he => exact absurd h₅ (by simp [he, Reply.status])
    case inr he => exact absurd h₄ (by simp [he])
  all_goals simp [Reply.status] at h₄ h₅

-- A rejection is passed on from a response that its handler has awaited.
theorem rejection_of_step (hs : Sound s) (h : s.step client a = some (s', sent))
    (ha : answer ∈ s'.answers) (hr : answer.reply.isRejection) : answer ∈ s.answers ∨
      ∃ now r, a = .settle answer.handler now (.response r) ∧ 400 ≤ r.status ∧ r.status < 500 := by
  have hst : 400 ≤ answer.reply.status ∧ answer.reply.status < 500 ∧
      answer.reply ≠ .refused 409 conflictDetail := by
    generalize answer.reply = reply at hr
    cases reply
    case refused => exact ⟨hr.1, hr.2.1, fun he => hr.2.2 (Reply.refused.inj he).2⟩
    all_goals cases hr
  apply (clientError_of_step hs h ha hst.1 hst.2.1).imp_right
  intro h
  exact h.resolve_left fun hc => hst.2.2 hc.1

-- The answers of success are the records of the payloads that they are to.
def Faithful (s : State) : Prop :=
  ∀ answer ∈ s.answers, ∀ event, s.submitted answer.handler = some event →
    answer.reply.status < 400 → ∃ status record, answer.reply = .event status record ∧
      getEvent s.events event.eventId = .ok (some record) ∧ record.SameFacts event

theorem Faithful.step (h : Faithful s) (hs : Sound s) (hstep : s.step client a = some (s', sent)) :
    Faithful s' := by
  have hm := State.step_moves hstep
  intro answer ha event hsub hok
  cases says_of_step hs hstep ha
  case inl ha =>
    have hsub := (State.submitted_of_prefix hm.begun (hs.known answer ha)).symm.trans hsub
    have ⟨status, record, hr, hg, hsame⟩ := h answer ha event hsub hok
    exact ⟨status, record, hr, getEvent_extends hm.extends hg, hsame⟩
  case inr hnew =>
    have ⟨operation, verdict, ho, hsays, hears⟩ := hnew
    have ho := ho.symm.trans (State.submitted_eq_some.mp hsub)
    cases ho
    generalize answer.reply = reply at hok hsays
    generalize s'.events = u at hsays
    cases hsays
    case replayed event' row record hop hf hr hsame =>
      cases hop
      exact ⟨200, record, rfl, getEvent_read hf hr, hsame⟩
    case created event' now payload record hop hf hr hu =>
      cases hop
      have hf : u.find? event.eventId = some (insertedRow now event) :=
        Table.find?_eq_some.mpr ⟨by simp [hu], rfl⟩
      have ⟨_, he⟩ := eventFromRow_inserted_iff.mp hr
      exact ⟨201, record, rfl, getEvent_read hf hr, he ▸ event.stored_sameFacts⟩
    case rejected => exact absurd hok (Nat.not_lt.mpr hears.rejected.1)
    case shown hn => cases hn
    all_goals exact absurd hok (by simp [Reply.status])

end Gateway
