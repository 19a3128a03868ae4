import EventLedger.Gateway.Main
import EventLedger.Gateway.Theorems.Client
import EventLedger.Gateway.Theorems.Store

namespace Gateway

variable {client : Client} {s s' : State} {id : ℕ} {operation : Operation}
variable {event p q : EventPayload} {sent : Option Sent} {m : Sent} {handler handler' : Handler}
variable {t u : Events} {now : Civil} {outcome : Outcome} {attempt : ℕ}

theorem sameEvent_iff : sameEvent p q ↔ p.SameFacts q :=
  EventPayload.sameEvent_iff fun c d => by simp [Civil.instant_injective.eq_iff]

def Reply.isRecord : Reply → Bool
  | .event .. => true
  | _         => false

-- What a handler does to the table and answers when it goes on with its operation.
inductive Effect (t : Events) (operation : Operation) : Events → Option Reply → Prop
  | awaiting : Effect t operation t none
  | refused {reply} : reply.isRecord = false →
    (∀ event, operation = .applyTransaction event → 400 ≤ reply.status) →
    Effect t operation t (some reply)
  | replayed {event row record} : operation = .applyTransaction event →
    t.find? event.eventId = some row → eventFromRow row = .ok record → record.SameFacts event →
    Effect t operation t (some (.event 200 record))
  | inserted {event now u record} : operation = .applyTransaction event →
    t.find? event.eventId = none → u.rows = t.rows ++ [insertedRow now event] →
    eventFromRow (insertedRow now event) = .ok record →
    Effect t operation u (some (.event 201 record))
  | unread {event now u e} : operation = .applyTransaction event →
    t.find? event.eventId = none → u.rows = t.rows ++ [insertedRow now event] →
    eventFromRow (insertedRow now event) = .error e →
    Effect t operation u (some .internalError)

-- The table stays, or the row of the event of a submission is appended to it.
theorem Effect.rows_cases {reply : Option Reply} (h : Effect t operation u reply) :
    u = t ∨ ∃ event now, operation = .applyTransaction event ∧ t.find? event.eventId = none ∧
      u.rows = t.rows ++ [insertedRow now event] := by
  cases h
  case inserted ho hf _ hu => exact .inr ⟨_, _, ho, hf, hu⟩
  case unread ho hf _ hu   => exact .inr ⟨_, _, ho, hf, hu⟩
  all_goals exact .inl rfl

-- All that one turn of a handler changes.
structure Turn (client : Client) (s : State) (id : ℕ) (operation : Operation) (s' : State)
    (sent : Option Sent) (reply : Option Reply) : Prop where
  effect : Effect s.events operation s'.events reply
  answers : s'.answers = s.answers ++ reply.toList.map ({ handler := id, reply := · })
  begun : s'.begun = s.begun
  others : ∀ j ≠ id, s'.handlers j = s.handlers j
  own : ∀ h, s'.handlers id = some h → h.operation = operation ∧ reply = none
  sends : ∀ m, sent = some m → m.tag.handler = id ∧ client.request operation = some m.request

-- The attempt that ends is the one that a handler awaits, and it is judged.
theorem State.settle_cases (h : s.settle client id now outcome = some s') :
    ∃ operation attempt verdict breaker, s.handlers id = some ⟨operation, attempt, .calling⟩ ∧
      client.Judges attempt outcome verdict ∧
      s' = { s with breaker }.resume id now operation attempt verdict := by
  unfold settle at h
  split at h
  case h_2 => cases h
  case h_1 operation attempt hh =>
    exact ⟨operation, attempt, _, _, hh, client.settle_judges .., (Option.some.inj h).symm⟩

theorem State.wake_cases {r : State × Option Sent} (h : s.wake client id = some r) :
    ∃ operation attempt delay, s.handlers id = some ⟨operation, attempt, .sleeping delay⟩ ∧
      r = s.send client id operation (attempt + 1) := by
  unfold wake at h
  split at h
  case h_2 => cases h
  case h_1 operation attempt delay hh =>
    exact ⟨operation, attempt, delay, hh, (Option.some.inj h).symm⟩

section Reads

variable (client : Client) (s : State) (id : ℕ)

theorem send_events : (s.send client id operation attempt).1.events = s.events := by
  unfold State.send
  split <;> rfl

theorem call_events : (s.call client id operation).1.events = s.events := by
  unfold State.call
  split
  case isTrue  => exact send_events ..
  case isFalse => rfl

theorem submitEvent_events : (s.submitEvent client id event).1.events = s.events := by
  unfold State.submitEvent
  split
  case h_1 => rfl
  case h_2 => exact call_events ..
  case h_3 => split <;> rfl

end Reads

namespace Turn

-- A handler that ends.
theorem of_effect {reply : Reply} (h : Effect s.events operation s'.events (some reply))
    (ha : s'.answers = s.answers) (hb : s'.begun = s.begun) (hh : s'.handlers = s.handlers) :
    Turn client s id operation (s'.answer id reply) none (some reply) where
  effect := h
  answers := by simp [State.answer, ha]
  begun := hb
  others j hj := by simp [State.answer, hh, hj]
  own h hi := by simp [State.answer] at hi
  sends := by simp

theorem of_refused {reply : Reply} (hr : reply.isRecord = false) (hs : 400 ≤ reply.status)
    (he : s'.events = s.events) (ha : s'.answers = s.answers) (hb : s'.begun = s.begun)
    (hh : s'.handlers = s.handlers) :
    Turn client s id operation (s'.answer id reply) none (some reply) :=
  of_effect (he ▸ .refused hr fun _ _ => hs) ha hb hh

theorem send (client : Client) (s : State) (id : ℕ) (operation : Operation) (attempt : ℕ) :
    ∃ reply, Turn client s id operation (s.send client id operation attempt).1
      (s.send client id operation attempt).2 reply := by
  unfold State.send
  split
  case h_1 => exact ⟨_, of_refused rfl (by decide) rfl rfl rfl rfl⟩
  case h_2 request hr =>
    exact ⟨none, {
      effect := .awaiting
      answers := by simp [State.enter]
      begun := rfl
      others j hj := by simp [State.enter, hj]
      own h hi := by
        simp only [State.enter, Function.update_self, Option.some.injEq] at hi
        exact hi ▸ ⟨rfl, rfl⟩
      sends m hm := Option.some.inj hm ▸ ⟨rfl, hr⟩
    }⟩

theorem call (client : Client) (s : State) (id : ℕ) (operation : Operation) :
    ∃ reply, Turn client s id operation (s.call client id operation).1
      (s.call client id operation).2 reply := by
  unfold State.call
  split
  case isTrue  => exact send ..
  case isFalse => exact ⟨_, of_refused rfl (by simp [Reply.status]) rfl rfl rfl rfl⟩

theorem conflict (client : Client) (s : State) (id : ℕ) (operation : Operation) :
    ∃ reply, Turn client s id operation (s.conflict id) none reply :=
  ⟨_, of_refused rfl (by simp [Reply.status]) rfl rfl rfl rfl⟩

theorem submitEvent (client : Client) (s : State) (id : ℕ) (event : EventPayload) :
    ∃ reply, Turn client s id (.applyTransaction event) (s.submitEvent client id event).1
      (s.submitEvent client id event).2 reply := by
  unfold State.submitEvent
  split
  case h_1 => exact ⟨_, of_refused rfl (by decide) rfl rfl rfl rfl⟩
  case h_2 => exact call ..
  case h_3 existing hg =>
    split
    case isTrue hs =>
      obtain ⟨row, hf, hr⟩ := getEvent_eq_some hg
      exact ⟨_, of_effect (.replayed rfl hf hr (sameEvent_iff.mp hs)) rfl rfl rfl⟩
    case isFalse => exact conflict ..

theorem inserted {result : Except InsertError (EventRecord × Bool)} {s : State} (client : Client)
    (id : ℕ) (h : (store now).Put s.events event result u) :
    ∃ reply, Turn client s id (.applyTransaction event) (s.inserted id u result) none reply := by
  cases h
  case replayed hf hr hs =>
    have hs := Repository.sameEvent_iff.mp hs
    exact ⟨_, of_effect (.replayed rfl hf (Except.mapError_eq_ok hr) hs) rfl rfl rfl⟩
  case conflicting => exact ⟨_, of_refused rfl (by simp [Reply.status]) rfl rfl rfl rfl⟩
  case stale hf hr =>
    obtain ⟨e, _, he⟩ := Except.mapError_eq_error hr
    subst he
    exact ⟨_, of_refused rfl (by decide) rfl rfl rfl rfl⟩
  case refused hg => cases hg
  case inserted hf _ hr hu =>
    exact ⟨_, of_effect (.inserted rfl hf hu (Except.mapError_eq_ok hr)) rfl rfl rfl⟩
  case unread hf _ hr hu =>
    obtain ⟨e, hr', he⟩ := Except.mapError_eq_error hr
    subst he
    exact ⟨_, of_effect (.unread rfl hf hu hr') rfl rfl rfl⟩

theorem returned (client : Client) (s : State) (id : ℕ) (now : Civil) (operation : Operation)
    (payload : Document) :
    ∃ reply, Turn client s id operation (s.returned id now operation payload) none reply := by
  cases operation
  case applyTransaction event =>
    exact inserted client id (insertAppliedEvent_put now event s.events)
  case getBalance =>
    refine ⟨_, of_effect (.refused ?_ nofun) rfl rfl rfl⟩
    split <;> rfl
  case getAccount =>
    refine ⟨_, of_effect (.refused ?_ nofun) rfl rfl rfl⟩
    split <;> rfl

theorem rejected {status : ℕ} (h : 400 ≤ status) (client : Client) (s : State) (id : ℕ)
    (operation : Operation) (detail : Json) :
    ∃ reply, Turn client s id operation (s.rejected id operation status detail) none reply := by
  cases operation <;> exact ⟨_, of_refused rfl h rfl rfl rfl rfl⟩

theorem resume (client : Client) (s : State) (id : ℕ) (now : Civil) (operation : Operation)
    (attempt : ℕ) {verdict : Verdict} (h : client.Judges attempt outcome verdict) :
    ∃ reply, Turn client s id operation (s.resume id now operation attempt verdict) none reply := by
  cases h
  case retry =>
    exact ⟨none, {
      effect := .awaiting
      answers := by simp [State.resume, State.enter]
      begun := rfl
      others j hj := by simp [State.resume, State.enter, hj]
      own h hi := by
        simp only [State.resume, State.enter, Function.update_self, Option.some.injEq] at hi
        exact hi ▸ ⟨rfl, rfl⟩
      sends := by simp
    }⟩
  case unavailable      => exact ⟨_, of_refused rfl (by simp [Reply.status]) rfl rfl rfl rfl⟩
  case rejected h _     => exact rejected h ..
  case returned payload => exact returned ..
  case escaped          => exact ⟨_, of_refused rfl (by decide) rfl rfl rfl rfl⟩

-- The breaker has no part in a turn.
theorem of_breaker {breaker : Breaker} {reply : Option Reply}
    (h : Turn client { s with breaker } id operation s' sent reply) :
    Turn client s id operation s' sent reply :=
  ⟨h.effect, h.answers, h.begun, h.others, h.own, h.sends⟩

theorem settle (h : s.settle client id now outcome = some s') : ∃ operation attempt reply,
    s.handlers id = some ⟨operation, attempt, .calling⟩ ∧
    Turn client s id operation s' none reply ∧ (s'.events = s.events ∨ outcome.isSuccess) := by
  obtain ⟨operation, attempt, verdict, breaker, hh, hj, rfl⟩ := State.settle_cases h
  obtain ⟨reply, ht⟩ := resume client { s with breaker } id now operation attempt hj
  refine ⟨operation, attempt, reply, hh, of_breaker ht, ?_⟩
  cases hj
  case returned hr hl =>
    exact .inr (by simpa [hr, Outcome.isSuccess, Http.Response.isSuccess] using hl)
  case rejected       => cases operation <;> exact .inl rfl
  all_goals exact .inl rfl

theorem wake {r : State × Option Sent} (h : s.wake client id = some r) :
    ∃ operation attempt delay reply, s.handlers id = some ⟨operation, attempt, .sleeping delay⟩ ∧
    Turn client s id operation r.1 r.2 reply ∧ r.1.events = s.events := by
  obtain ⟨operation, attempt, delay, hh, rfl⟩ := State.wake_cases h
  obtain ⟨reply, ht⟩ := send client s id operation (attempt + 1)
  exact ⟨operation, attempt, delay, reply, hh, ht, send_events ..⟩

-- Nothing is written before the downstream call has returned.
theorem begin (client : Client) (s : State) (operation : Operation) : ∃ reply,
    Turn client (s.start operation) s.begun.length operation (s.begin client operation).1
      (s.begin client operation).2 reply ∧ (s.begin client operation).1.events = s.events := by
  cases operation
  case applyTransaction event =>
    obtain ⟨reply, ht⟩ :=
      submitEvent client (s.start (.applyTransaction event)) s.begun.length event
    exact ⟨reply, ht, submitEvent_events ..⟩
  case getBalance accountId =>
    obtain ⟨reply, ht⟩ := call client (s.start (.getBalance accountId)) s.begun.length
      (.getBalance accountId)
    exact ⟨reply, ht, call_events ..⟩
  case getAccount accountId =>
    obtain ⟨reply, ht⟩ := call client (s.start (.getAccount accountId)) s.begun.length
      (.getAccount accountId)
    exact ⟨reply, ht, call_events ..⟩

end Turn

-- All that a step of the process can do.
inductive Moves (client : Client) (s : State) : Action → State → Option Sent → Prop
  | begin {operation s' sent reply} :
    Turn client (s.start operation) s.begun.length operation s' sent reply →
    s'.events = s.events → Moves client s (.begin operation) s' sent
  | settle {id now outcome operation attempt s' reply} :
    s.handlers id = some ⟨operation, attempt, .calling⟩ →
    Turn client s id operation s' none reply → (s'.events = s.events ∨ outcome.isSuccess) →
    Moves client s (.settle id now outcome) s' none
  | wake {id operation attempt delay s' sent reply} :
    s.handlers id = some ⟨operation, attempt, .sleeping delay⟩ →
    Turn client s id operation s' sent reply → s'.events = s.events →
    Moves client s (.wake id) s' sent
  | idle {a s'} : s'.events = s.events → s'.answers = s.answers → s'.begun = s.begun →
    (s'.handlers = s.handlers ∨ s'.handlers = fun _ => none) → Moves client s a s' none

theorem State.step_moves {a : Action} (h : s.step client a = some (s', sent)) :
    Moves client s a s' sent := by
  cases a
  case begin operation =>
    have h := Option.some.inj h
    obtain ⟨_, ht, he⟩ := Turn.begin client s operation
    rw [h] at ht he
    exact .begin ht he
  case settle id now outcome =>
    obtain ⟨_, hs, he⟩ := Option.map_eq_some_iff.mp h
    cases he
    obtain ⟨_, _, _, hh, ht, he⟩ := Turn.settle hs
    exact .settle hh ht he
  case wake id =>
    obtain ⟨_, _, _, _, hh, ht, he⟩ := Turn.wake h
    exact .wake hh ht he
  case wait duration =>
    obtain ⟨u, hw, he⟩ := Option.map_eq_some_iff.mp h
    cases he
    unfold State.wait at hw
    split at hw
    case isTrue  => exact Option.some.inj hw ▸ .idle rfl rfl rfl (.inl rfl)
    case isFalse => cases hw
  case restart =>
    have h := Option.some.inj h
    cases h
    exact .idle rfl rfl rfl (.inr rfl)

namespace State

theorem inserted_events {result : Except InsertError (EventRecord × Bool)} (s : State) (id : ℕ)
    (u : Events) : (s.inserted id u result).events = u := by
  unfold inserted
  split <;> rfl

theorem settle_eq (hh : s.handlers id = some ⟨operation, attempt, .calling⟩) :
    s.settle client id now outcome =
      some ({ s with breaker := (client.settle s.clock attempt s.breaker outcome).2 }.resume id now
        operation attempt (client.settle s.clock attempt s.breaker outcome).1) := by
  rw [settle, hh]

theorem settle_success (hh : s.handlers id = some ⟨operation, attempt, .calling⟩)
    (ho : outcome.isSuccess) : ∃ payload, s.settle client id now outcome =
      some ({ s with breaker := .closed }.returned id now operation payload) := by
  obtain ⟨payload, hp⟩ := client.settle_success s.clock attempt s.breaker ho
  exact ⟨payload, by rw [settle_eq hh, hp]; rfl⟩

-- The first success of an event writes its row.
theorem returned_rows (hf : s.events.find? event.eventId = none) (id : ℕ) (now : Civil)
    (payload : Document) : (s.returned id now (.applyTransaction event) payload).events.rows =
      s.events.rows ++ [insertedRow now event] := by
  have hp := insertAppliedEvent_put now event s.events
  rw [returned, inserted_events]
  exact hp.rows_of_fresh hf rfl

theorem returned_applyTransaction (s : State) (id : ℕ) (now : Civil) (event : EventPayload)
    (payload : Document) : s.returned id now (.applyTransaction event) payload =
      s.inserted id (insertAppliedEvent now event s.events).2
        (insertAppliedEvent now event s.events).1 :=
  rfl

theorem returned_fresh (hf : s.events.find? event.eventId = none) (hc : event.currency.length = 3)
    (id : ℕ) (now : Civil) (payload : Document) :
    (s.returned id now (.applyTransaction event) payload).answers =
      s.answers ++ [{ handler := id, reply := .event 201 (storedRecord now event) }] := by
  have hr : (store now).read (insertedRow now event) = .ok (storedRecord now event) := by
    simp only [store, eventFromRow_inserted hc]
    rfl
  have ⟨hx, _⟩ := (insertAppliedEvent_put now event s.events).of_fresh hf rfl hr
  rw [returned_applyTransaction, hx]
  rfl

theorem returned_same {record : EventRecord}
    (hg : Gateway.getEvent s.events event.eventId = .ok (some record)) (hs : record.SameFacts event)
    (id : ℕ) (now : Civil) (payload : Document) :
    (s.returned id now (.applyTransaction event) payload).answers =
      s.answers ++ [{ handler := id, reply := .event 200 record }] ∧
    (s.returned id now (.applyTransaction event) payload).events = s.events := by
  obtain ⟨row, hf, hr⟩ := getEvent_eq_some hg
  have hr : (store now).read row = .ok record := by
    simp only [store, hr]
    rfl
  have ⟨hx, hu⟩ := (insertAppliedEvent_put now event s.events).of_same hf hr
    (Repository.sameEvent_iff.mpr hs)
  rw [returned_applyTransaction, hx, hu]
  exact ⟨rfl, rfl⟩

theorem settle_success_rows (hh : s.handlers id = some ⟨.applyTransaction event, attempt, .calling⟩)
    (ho : outcome.isSuccess) (hf : s.events.find? event.eventId = none)
    (hs : s.settle client id now outcome = some s') :
    s'.events.rows = s.events.rows ++ [insertedRow now event] := by
  obtain ⟨payload, hp⟩ := settle_success hh ho
  cases hp.symm.trans hs
  exact returned_rows (s := { s with breaker := .closed }) hf ..

theorem settle_success_fresh
    (hh : s.handlers id = some ⟨.applyTransaction event, attempt, .calling⟩)
    (ho : outcome.isSuccess) (hf : s.events.find? event.eventId = none)
    (hc : event.currency.length = 3) (hs : s.settle client id now outcome = some s') :
    s'.answers =
      s.answers ++ [{ handler := id, reply := .event 201 (storedRecord now event) }] := by
  obtain ⟨payload, hp⟩ := settle_success hh ho
  cases hp.symm.trans hs
  exact returned_fresh (s := { s with breaker := .closed }) hf hc ..

theorem settle_success_same {record : EventRecord}
    (hh : s.handlers id = some ⟨.applyTransaction event, attempt, .calling⟩)
    (ho : outcome.isSuccess) (hg : Gateway.getEvent s.events event.eventId = .ok (some record))
    (hr : record.SameFacts event) (hs : s.settle client id now outcome = some s') :
    s'.answers = s.answers ++ [{ handler := id, reply := .event 200 record }] ∧
    s'.events = s.events := by
  obtain ⟨payload, hp⟩ := settle_success hh ho
  cases hp.symm.trans hs
  exact returned_same (s := { s with breaker := .closed }) hg hr ..

-- The answer of a handler that gives up.
theorem settle_unavailable (hh : s.handlers id = some ⟨operation, attempt, .calling⟩)
    (hf : outcome.isFailure ∧ client.maxAttempts ≤ attempt)
    (hs : s.settle client id now outcome = some s') : s'.answers = s.answers ++
      [{ handler := id, reply := .refused 503 (unavailableDetail operation) }] := by
  have hv := (client.settle_judges s.clock attempt s.breaker outcome).unavailable_iff.mpr hf
  rw [settle_eq hh, hv, Option.some_inj] at hs
  exact hs ▸ rfl

theorem inserted_status {result : Except InsertError (EventRecord × Bool)} (s : State) (id : ℕ)
    (u : Events) : ∃ reply, (s.inserted id u result).answers =
      s.answers ++ [{ handler := id, reply }] ∧ reply.status ≠ 503 := by
  unfold inserted
  split <;> exact ⟨_, rfl, by simp [Reply.status]⟩

-- A handler that does not give up answers something else, if it answers.
theorem settle_available (hh : s.handlers id = some ⟨operation, attempt, .calling⟩)
    (hf : ¬(outcome.isFailure ∧ client.maxAttempts ≤ attempt))
    (hs : s.settle client id now outcome = some s') : s'.answers = s.answers ∨
      ∃ reply, s'.answers = s.answers ++ [{ handler := id, reply }] ∧ reply.status ≠ 503 := by
  have hj := client.settle_judges s.clock attempt s.breaker outcome
  have hv := hj.unavailable_iff.not.mpr hf
  rw [settle_eq hh, Option.some_inj] at hs
  generalize client.settle s.clock attempt s.breaker outcome = result at hs hj hv
  obtain ⟨verdict, breaker⟩ := result
  subst hs
  cases hj
  case retry            => exact .inl rfl
  case unavailable      => exact absurd rfl hv
  case escaped          => exact .inr ⟨_, rfl, by simp [Reply.status]⟩
  case rejected status detail _ _ hlt =>
    refine .inr ⟨.refused status detail, ?_, Nat.ne_of_lt (hlt.trans (by decide))⟩
    cases operation <;> rfl
  case returned         =>
    right
    cases operation
    case applyTransaction => exact inserted_status ..
    case getBalance       => exact ⟨_, rfl, by split <;> simp [Reply.status]⟩
    case getAccount       => exact ⟨_, rfl, by split <;> simp [Reply.status]⟩

theorem send_answers (client : Client) (s : State) (id : ℕ) (operation : Operation) (attempt : ℕ) :
    (s.send client id operation attempt).1.answers = s.answers ∨
      ∃ reply, (s.send client id operation attempt).1.answers =
        s.answers ++ [{ handler := id, reply }] ∧ reply.status ≠ 503 := by
  unfold send
  split
  case h_1 => exact .inr ⟨_, rfl, by simp [Reply.status]⟩
  case h_2 => exact .inl rfl

theorem wake_answers {r : State × Option Sent} (h : s.wake client id = some r) :
    r.1.answers = s.answers ∨
      ∃ reply, r.1.answers = s.answers ++ [{ handler := id, reply }] ∧ reply.status ≠ 503 := by
  obtain ⟨operation, attempt, _, _, rfl⟩ := wake_cases h
  exact send_answers ..

-- An operation that is not answered from the table, and whose request can be built.
structure Calls (s : State) (client : Client) (operation : Operation) : Prop where
  request : (client.request operation).isSome
  absent : ∀ event, operation = .applyTransaction event →
    Gateway.getEvent s.events event.eventId = .ok none

theorem send_of_request (h : (client.request operation).isSome) (s : State) (id attempt : ℕ) :
    ∃ m, s.send client id operation attempt =
      (s.enter id { operation, attempt, phase := .calling }, some m) := by
  obtain ⟨request, hr⟩ := Option.isSome_iff_exists.mp h
  exact ⟨_, by rw [send, hr]⟩

theorem send_isSome : (s.send client id operation attempt).2.isSome ↔
    (client.request operation).isSome := by
  unfold send
  split
  case h_1 hr => simp [hr]
  case h_2 hr => simp [hr]

theorem call_isSome : (s.call client id operation).2.isSome ↔
    (client.request operation).isSome ∧ s.breaker.allowsRequest client s.clock := by
  unfold call
  split
  case isTrue hb  => simp [send_isSome, hb]
  case isFalse hb => simp [hb]

-- When an operation that begins sends its first attempt.
theorem begin_isSome : (s.begin client operation).2.isSome ↔
    s.Calls client operation ∧ s.breaker.allowsRequest client s.clock := by
  have hcall : ((s.start operation).call client s.begun.length operation).2.isSome ↔
      (client.request operation).isSome ∧ s.breaker.allowsRequest client s.clock := call_isSome
  cases operation
  case applyTransaction event =>
    simp only [begin, submitEvent]
    split
    case h_1 e hg =>
      refine iff_of_false (by simp) fun h => ?_
      cases hg.symm.trans (h.1.absent event rfl)
    case h_2 hg =>
      rw [hcall]
      refine and_congr_left fun _ => ⟨fun h => ⟨h, fun _ he => ?_⟩, fun h => h.request⟩
      exact Operation.applyTransaction.inj he ▸ hg
    case h_3 existing hg =>
      refine iff_of_false (by split <;> simp) fun h => ?_
      cases hg.symm.trans (h.1.absent event rfl)
  case getBalance accountId =>
    exact hcall.trans (and_congr_left fun _ => ⟨fun h => ⟨h, nofun⟩, fun h => h.request⟩)
  case getAccount accountId =>
    exact hcall.trans (and_congr_left fun _ => ⟨fun h => ⟨h, nofun⟩, fun h => h.request⟩)

theorem begin_of_calls (h : s.Calls client operation)
    (hb : s.breaker.allowsRequest client s.clock) :
    ∃ m, s.begin client operation = ((s.start operation).enter s.begun.length
      { operation, attempt := 1, phase := .calling }, some m) := by
  obtain ⟨m, hm⟩ := send_of_request h.request (s.start operation) s.begun.length 1
  have hc : (s.start operation).call client s.begun.length operation =
      ((s.start operation).enter s.begun.length { operation, attempt := 1, phase := .calling },
        some m) := by
    have hb : (s.start operation).breaker.allowsRequest client (s.start operation).clock := hb
    rw [call, if_pos hb, hm]
  refine ⟨m, ?_⟩
  cases operation
  case applyTransaction event =>
    have hg :
        Gateway.getEvent (s.start (.applyTransaction event)).events event.eventId = .ok none :=
      h.absent event rfl
    simp only [begin, submitEvent, hg]
    exact hc
  case getBalance => exact hc
  case getAccount => exact hc

theorem enter_enter : (s.enter id handler).enter id handler' = s.enter id handler' := by
  simp [enter]

theorem enter_self (h : s.handlers id = some handler) : s.enter id handler = s := by
  simp [enter, ← h]

end State

end Gateway
