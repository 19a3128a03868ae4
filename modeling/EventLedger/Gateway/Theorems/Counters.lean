import EventLedger.Gateway.Theorems.Acceptance

namespace Gateway

variable {client : Client} {s s' : State} {id : ℕ} {operation : Operation} {event : EventPayload}
variable {reply reply' : Option Reply} {sent : Option Sent} {now : Civil} {outcome : Outcome}
variable {a : Action} {attempt : ℕ} {m m' : Metrics}

def Operation.submits : Operation → Bool
  | applyTransaction _ => true
  | _                  => false

namespace State

def count (s : State) (name : String) : ℕ :=
  s.metrics.count name

-- The number of answers with a property that may depend on whether they answer a submission.
def answered (s : State) (p : Bool → Reply → Bool) : ℕ :=
  s.answers.countP fun a => p (s.submitted a.handler).isSome a.reply

end State

namespace Reply

-- The 2xx answers to `POST /events`.
@[simp]
def succeeds (submission : Bool) (reply : Reply) : Bool :=
  submission && (200 ≤ reply.sentStatus && reply.sentStatus < 300)

-- The answers with the status 503, to any request.
@[simp]
def isUnavailable (_ : Bool) (reply : Reply) : Bool :=
  reply.sentStatus = 503

-- The 4xx answers that `submit_event` produces.
@[simp]
def refuses (submission : Bool) (reply : Reply) : Bool :=
  submission && (400 ≤ reply.status && reply.status < 500)

end Reply

-- The counters agree with the table and with the answers.
structure Reconciles (s : State) : Prop where
  accepted : s.count "gateway.events.accepted" = s.events.rows.length
  succeeded :
    s.count "gateway.events.accepted" + s.count "gateway.events.duplicate_replay" =
      s.answered Reply.succeeds
  unavailable : s.count "gateway.account_service.unavailable" = s.answered Reply.isUnavailable
  circuitOpen :
    s.count "gateway.account_service.circuit_open" ≤ s.count "gateway.account_service.unavailable"
  refused :
    s.count "gateway.events.idempotency_conflict" + s.count "gateway.account_service.rejected" =
      s.answered Reply.refuses

-- The answers that come with a new row.
@[simp]
def Reply.isCreation (reply : Reply) : Bool :=
  reply.isRecord && reply.status = 201

-- What a handler counts when it answers.
inductive Counts (m : Metrics) (operation : Operation) : Option Reply → Metrics → Prop
  | awaiting : Counts m operation none m
  | accepted {record : EventRecord} : operation.submits →
    Counts m operation (some (.event 201 record))
      (m.recordDomainEvent "gateway.events.accepted")
  | replayed {record : EventRecord} : operation.submits →
    Counts m operation (some (.event 200 record))
      (m.recordDomainEvent "gateway.events.duplicate_replay")
  | conflict : operation.submits →
    Counts m operation (some (.refused 409 conflictDetail))
      (m.recordDomainEvent "gateway.events.idempotency_conflict")
  | rejected {status : ℕ} {detail : Json} : operation.submits → 400 ≤ status → status < 500 →
    Counts m operation (some (.refused status detail))
      (m.recordDomainEvent "gateway.account_service.rejected")
  | unavailable :
    Counts m operation (some (.refused 503 (unavailableDetail operation)))
      (m.recordDomainEvent "gateway.account_service.unavailable")
  | circuitOpen :
    Counts m operation (some (.refused 503 (circuitOpenDetail operation)))
      (m.recordDomainEvent "gateway.account_service.circuit_open"
        |>.recordDomainEvent "gateway.account_service.unavailable")
  -- the answers of the reads
  | refused {status : ℕ} {detail : Json} : operation.submits = false → 400 ≤ status →
    status < 500 → Counts m operation (some (.refused status detail)) m
  | balance {response : BalanceResponse} : operation.submits = false →
    Counts m operation (some (.balance response)) m
  | account {details : AccountDetailsResponse} : operation.submits = false →
    Counts m operation (some (.account details)) m
  | failed : Counts m operation (some .internalError) m

-- What one turn of a handler counts. A handler goes on only with a request that can be built.
structure Books (client : Client) (s : State) (id : ℕ) (operation : Operation) (s' : State)
    (reply : Option Reply) : Prop where
  answers : s'.answers = s.answers ++ reply.toList.map ({ handler := id, reply := · })
  counts : Counts s.metrics operation reply s'.metrics
  requested : ∀ h, s'.handlers id = some h → (client.request operation).isSome

namespace Books

theorem of_counts {reply : Reply} (hc : Counts s.metrics operation (some reply) s'.metrics)
    (ha : s'.answers = s.answers) :
    Books client s id operation (s'.answer id reply) (some reply) where
  answers := by simp [State.answer, ha]
  counts := hc
  requested h hi := by simp [State.answer] at hi

theorem send (client : Client) (s : State) (id : ℕ) (operation : Operation) (attempt : ℕ) :
    ∃ reply, Books client s id operation (s.send client id operation attempt).1 reply := by
  unfold State.send
  split
  case h_1 => exact ⟨_, of_counts .failed rfl⟩
  case h_2 request hr =>
    exact ⟨none, {
      answers := by simp [State.enter]
      counts := .awaiting
      requested := fun _ _ => Option.isSome_iff_exists.mpr ⟨request, hr⟩
    }⟩

theorem call (client : Client) (s : State) (id : ℕ) (operation : Operation) :
    ∃ reply, Books client s id operation (s.call client id operation).1 reply := by
  unfold State.call
  split
  case isTrue  => exact send ..
  case isFalse => exact ⟨_, of_counts .circuitOpen rfl⟩

theorem submitEvent (client : Client) (s : State) (id : ℕ) (event : EventPayload) :
    ∃ reply, Books client s id (.applyTransaction event) (s.submitEvent client id event).1
      reply := by
  unfold State.submitEvent
  split
  case h_1 => exact ⟨_, of_counts .failed rfl⟩
  case h_2 => exact call ..
  case h_3 =>
    split
    case isTrue  => exact ⟨_, of_counts (.replayed rfl) rfl⟩
    case isFalse => exact ⟨_, of_counts (.conflict rfl) rfl⟩

theorem begin (client : Client) (s : State) (operation : Operation) :
    ∃ reply, Books client (s.start operation) s.begun.length operation
      (s.begin client operation).1 reply := by
  cases operation
  case applyTransaction event => exact submitEvent ..
  case getBalance             => exact call ..
  case getAccount             => exact call ..

theorem inserted {result : Except InsertError (EventRecord × Bool)} (client : Client) (s : State)
    (id : ℕ) (event : EventPayload) (u : Events) :
    ∃ reply, Books client s id (.applyTransaction event) (s.inserted id u result) reply := by
  unfold State.inserted
  split
  case h_1 => exact ⟨_, of_counts (.accepted rfl) rfl⟩
  case h_2 => exact ⟨_, of_counts (.replayed rfl) rfl⟩
  case h_3 => exact ⟨_, of_counts (.conflict rfl) rfl⟩
  case h_4 => exact ⟨_, of_counts .failed rfl⟩

theorem returned (client : Client) (s : State) (id : ℕ) (now : Civil) (operation : Operation)
    (payload : Document) :
    ∃ reply, Books client s id operation (s.returned id now operation payload) reply := by
  cases operation
  case applyTransaction event => exact inserted ..
  case getBalance =>
    refine ⟨_, of_counts ?_ rfl⟩
    split
    case h_1 => exact .balance rfl
    case h_2 => exact .failed
  case getAccount =>
    refine ⟨_, of_counts ?_ rfl⟩
    split
    case h_1 => exact .account rfl
    case h_2 => exact .failed

theorem rejected {status : ℕ} (h₄ : 400 ≤ status) (h₅ : status < 500) (client : Client)
    (s : State) (id : ℕ) (operation : Operation) (detail : Json) :
    ∃ reply, Books client s id operation (s.rejected id operation status detail) reply := by
  cases operation
  case applyTransaction => exact ⟨_, of_counts (.rejected rfl h₄ h₅) rfl⟩
  case getBalance       => exact ⟨_, of_counts (.refused rfl h₄ h₅) rfl⟩
  case getAccount       => exact ⟨_, of_counts (.refused rfl h₄ h₅) rfl⟩

theorem resume {verdict : Verdict} (client : Client) (s : State) (id : ℕ) (now : Civil)
    (hj : client.Judges attempt outcome verdict) (hr : (client.request operation).isSome) :
    ∃ reply, Books client s id operation (s.resume id now operation attempt verdict) reply := by
  cases hj
  case retry =>
    exact ⟨none, {
      answers := by simp [State.resume, State.enter]
      counts := .awaiting
      requested := fun _ _ => hr
    }⟩
  case unavailable      => exact ⟨_, of_counts .unavailable rfl⟩
  case rejected h₄ h₅   => exact rejected h₄ h₅ ..
  case returned payload => exact returned ..
  case escaped          => exact ⟨_, of_counts .failed rfl⟩

theorem settle (h : s.settle client id now outcome = some s')
    (hr : ∀ h, s.handlers id = some h → (client.request h.operation).isSome) :
    ∃ operation attempt reply, s.handlers id = some ⟨operation, attempt, .calling⟩ ∧
      Books client s id operation s' reply := by
  obtain ⟨operation, attempt, verdict, breaker, hh, hj, rfl⟩ := State.settle_cases h
  obtain ⟨reply, hb⟩ := resume client { s with breaker } id now hj (hr _ hh)
  exact ⟨operation, attempt, reply, hh, hb.answers, hb.counts, hb.requested⟩

theorem wake {r : State × Option Sent} (h : s.wake client id = some r) :
    ∃ operation attempt delay reply, s.handlers id = some ⟨operation, attempt, .sleeping delay⟩ ∧
      Books client s id operation r.1 reply := by
  obtain ⟨operation, attempt, delay, hh, rfl⟩ := State.wake_cases h
  obtain ⟨reply, hb⟩ := send client s id operation (attempt + 1)
  exact ⟨operation, attempt, delay, reply, hh, hb⟩

-- The answer is the one of the turn.
theorem reply_eq (hb : Books client s id operation s' reply)
    (ht : Turn client s id operation s' sent reply') : reply = reply' := by
  have h := List.append_cancel_left (hb.answers.symm.trans ht.answers)
  cases reply <;> cases reply' <;> simp_all

end Books

-- The answers after a turn.
theorem answered_turn (ht : Turn client s id operation s' sent reply)
    (p : Bool → Reply → Bool) :
    s'.answered p = s.answered p + reply.toList.countP (p (s.submitted id).isSome) := by
  have hc : s'.answered p =
      s'.answers.countP fun a => p (s.submitted a.handler).isSome a.reply := by
    simp only [State.answered, Sound.submitted_turn ht]
  rw [hc, ht.answers, List.countP_append, List.countP_map]
  rfl

-- The rows after a turn that does not insert a row that cannot be read.
theorem rows_length_turn (ht : Turn client s id operation s' sent reply)
    (hl : ∀ event, operation = .applyTransaction event → s'.events ≠ s.events →
      event.currency.length = 3) :
    s'.events.rows.length = s.events.rows.length + reply.toList.countP Reply.isCreation := by
  have he := ht.effect
  generalize s'.events = u at he hl
  cases he
  case awaiting => rfl
  case refused hr _ => simp [hr]
  case replayed => rfl
  case inserted hu => simp [hu, Reply.isRecord, Reply.status]
  case unread event now e ho hf hrow hu =>
    have hne : u ≠ s.events := fun he => by simp [he] at hu
    rw [eventFromRow_inserted (hl event ho hne)] at hrow
    cases hrow

namespace Reply

theorem sentStatus_event {status : ℕ} {record : EventRecord}
    (h : (Json.obj record.modelFields).isStandard) :
    (Reply.event status record).sentStatus = status := by
  simp [sentStatus, content, h, Reply.status]

theorem sentStatus_text (status : ℕ) (text : Text) :
    (Reply.refused status (.str text)).sentStatus = status :=
  rfl

theorem sentStatus_cases (reply : Reply) :
    reply.sentStatus = reply.status ∨ reply.sentStatus = 500 := by
  unfold sentStatus
  split
  case isTrue  => exact .inl rfl
  case isFalse => exact .inr rfl

end Reply

-- What the counters of a process gain with an answer.
structure Gains (m : Metrics) (operation : Operation) (reply : Option Reply) (m' : Metrics) :
    Prop where
  accepted : m'.count "gateway.events.accepted" =
    m.count "gateway.events.accepted" + reply.toList.countP Reply.isCreation
  succeeded :
    m'.count "gateway.events.accepted" + m'.count "gateway.events.duplicate_replay" =
      m.count "gateway.events.accepted" + m.count "gateway.events.duplicate_replay" +
        reply.toList.countP (Reply.succeeds operation.submits)
  unavailable : m'.count "gateway.account_service.unavailable" =
    m.count "gateway.account_service.unavailable" +
      reply.toList.countP (Reply.isUnavailable operation.submits)
  circuitOpen :
    m'.count "gateway.account_service.circuit_open" +
        m.count "gateway.account_service.unavailable" ≤
      m.count "gateway.account_service.circuit_open" +
        m'.count "gateway.account_service.unavailable"
  refused :
    m'.count "gateway.events.idempotency_conflict" +
        m'.count "gateway.account_service.rejected" =
      m.count "gateway.events.idempotency_conflict" +
        m.count "gateway.account_service.rejected" +
        reply.toList.countP (Reply.refuses operation.submits)

theorem Counts.gains (h : Counts m operation reply m')
    (hp : ∀ status record, reply = some (.event status record) →
      (Json.obj record.modelFields).isStandard) : Gains m operation reply m' := by
  have hr : ∀ r : Reply, r.sentStatus = r.status ∨ r.sentStatus = 500 := Reply.sentStatus_cases
  have he : ∀ status record, reply = some (.event status record) →
      (Reply.event status record).sentStatus = status :=
    fun status record h => Reply.sentStatus_event (hp status record h)
  cases h
  case awaiting => constructor <;> simp
  case accepted record hs =>
    have hq := he 201 record rfl
    constructor <;> simp [Reply.isRecord, Reply.status, hs, hq]
    omega
  case replayed record hs =>
    have hq := he 200 record rfl
    constructor <;> simp [Reply.isRecord, Reply.status, hs, hq]
    omega
  case conflict hs =>
    have hq : (Reply.refused 409 conflictDetail).sentStatus = 409 := Reply.sentStatus_text ..
    constructor <;> simp [Reply.isRecord, Reply.status, hs, hq]
    omega
  case rejected status detail hs h₄ h₅ =>
    have hq := hr (.refused status detail)
    constructor <;> simp [Reply.isRecord, Reply.status, hs, h₄, h₅] at hq ⊢ <;> omega
  case unavailable =>
    have hq : (Reply.refused 503 (unavailableDetail operation)).sentStatus = 503 :=
      Reply.sentStatus_text ..
    constructor <;> simp [Reply.isRecord, Reply.status, hq]
  case circuitOpen =>
    have hq : (Reply.refused 503 (circuitOpenDetail operation)).sentStatus = 503 :=
      Reply.sentStatus_text ..
    constructor <;> simp [Reply.isRecord, Reply.status, hq]
    omega
  case refused status detail hs h₄ h₅ =>
    have hq := hr (.refused status detail)
    constructor <;> simp [Reply.isRecord, Reply.status, hs] at hq ⊢
    omega
  case balance response hs =>
    have hq := hr (.balance response)
    constructor <;> simp [Reply.isRecord, Reply.status, hs] at hq ⊢
    omega
  case account details hs =>
    have hq := hr (.account details)
    constructor <;> simp [Reply.isRecord, Reply.status, hs] at hq ⊢
    omega
  case failed =>
    have hq : Reply.internalError.sentStatus = 500 := rfl
    constructor <;> simp [Reply.isRecord, Reply.status, hq]

-- A submission that can be sent is recorded as one that can be rendered.
theorem Client.request_isStandard (h : (client.request (.applyTransaction event)).isSome) :
    event.modelDump.isStandard :=
  (EventPayload.encode_eq_some.mp (Client.encode_of_request h)).2.1

theorem modelFields_inserted {record : EventRecord}
    (h : (client.request (.applyTransaction event)).isSome)
    (hr : eventFromRow (insertedRow now event) = .ok record) :
    (Json.obj record.modelFields).isStandard := by
  have ha := EventPayload.modelDump_isStandard_iff.mp (Client.request_isStandard h)
  obtain ⟨_, rfl⟩ := eventFromRow_inserted_iff.mp hr
  exact EventRecord.modelFields_isStandard (EventPayload.modelDump_isStandard_iff.mpr ha)

-- What holds of a process that does not stop and whose insertions return or raise the conflict.
structure Audited (client : Client) (s : State) : Prop where
  sound : Sound s
  requested : ∀ id h, s.handlers id = some h → (client.request h.operation).isSome
  rendered : ∀ row ∈ s.events.rows, ∀ record, eventFromRow row = .ok record →
    (Json.obj record.modelFields).isStandard
  reconciles : Reconciles s

namespace Audited

theorem init : Audited client .init where
  sound := .init
  requested := by simp [State.init]
  rendered := by simp [State.init, Table.empty]
  reconciles := by constructor <;> simp [State.count, State.answered, State.init, Table.empty]

theorem start (h : Audited client s) (operation : Operation) :
    Audited client (s.start operation) where
  sound := h.sound.start operation
  requested := h.requested
  rendered := h.rendered
  reconciles := by
    have ha : ∀ p, (s.start operation).answered p = s.answered p := fun p =>
      List.countP_congr fun a hm => by rw [h.sound.submitted_start operation hm]
    obtain ⟨h₁, h₂, h₃, h₄, h₅⟩ := h.reconciles
    exact ⟨h₁, h₂.trans (ha _).symm, h₃.trans (ha _).symm, h₄, h₅.trans (ha _).symm⟩

theorem rendered_turn (h : Audited client s) (ht : Turn client s id operation s' sent reply)
    (hq : s'.events ≠ s.events → (client.request operation).isSome) :
    ∀ row ∈ s'.events.rows, ∀ record, eventFromRow row = .ok record →
      (Json.obj record.modelFields).isStandard := by
  intro row hr record he
  rcases ht.effect.rows_cases with hs | ⟨event, now, ho, _, hu⟩
  case inl => exact h.rendered row (hs ▸ hr) record he
  case inr =>
    have hne : s'.events ≠ s.events := fun hs => by simp [hs] at hu
    rw [hu, List.mem_append, List.mem_singleton] at hr
    rcases hr with hr | hr
    case inl => exact h.rendered row hr record he
    case inr => exact modelFields_inserted (ho ▸ hq hne) (hr ▸ he)

-- The record of an answer is one of the table.
theorem reply_rendered (ht : Turn client s id operation s' sent reply)
    (hr : ∀ row ∈ s'.events.rows, ∀ record, eventFromRow row = .ok record →
      (Json.obj record.modelFields).isStandard) :
    ∀ status record, reply = some (.event status record) →
      (Json.obj record.modelFields).isStandard := by
  intro status record he
  have hf := ht.effect
  generalize s'.events = u at hf hr
  subst he
  cases hf
  case refused hn _        => cases hn
  case replayed hf hrow _  => exact hr _ (Table.find?_eq_some.mp hf).1 record hrow
  case inserted hf hu hrow => exact hr _ (by simp [hu]) record hrow

theorem turn (h : Audited client s) (hb : s.begun[id]? = some operation)
    (ht : Turn client s id operation s' sent reply)
    (hk : Books client s id operation s' reply)
    (hl : ∀ event, operation = .applyTransaction event → s'.events ≠ s.events →
      event.currency.length = 3)
    (hq : s'.events ≠ s.events → (client.request operation).isSome) : Audited client s' where
  sound := h.sound.turn hb ht hl
  requested j handler hh := by
    by_cases hj : j = id
    case pos =>
      subst hj
      rw [(ht.own handler hh).1]
      exact hk.requested handler hh
    case neg => exact h.requested j handler (ht.others j hj ▸ hh)
  rendered := h.rendered_turn ht hq
  reconciles := by
    have hs : (s.submitted id).isSome = operation.submits := by
      rw [State.submitted, hb]
      cases operation <;> rfl
    have hr := rows_length_turn ht hl
    have ha := answered_turn ht
    have hg := hk.counts.gains (reply_rendered ht (h.rendered_turn ht hq))
    obtain ⟨h₁, h₂, h₃, h₄, h₅⟩ := h.reconciles
    rw [hs] at ha
    exact {
      accepted := hg.accepted.trans (by rw [hr, ← h₁]; rfl)
      succeeded := hg.succeeded.trans (by rw [ha, ← h₂]; rfl)
      unavailable := hg.unavailable.trans (by rw [ha, ← h₃]; rfl)
      circuitOpen := by
        have := hg.circuitOpen
        simp only [State.count] at h₄ ⊢
        omega
      refused := hg.refused.trans (by rw [ha, ← h₅]; rfl)
    }

end Audited

-- The process does not stop, and an insertion returns or raises the conflict.
structure Regular (s : State) (a : Action) : Prop where
  continues : a ≠ .restart
  inserts : ∀ id now outcome handler event e, a = .settle id now outcome → outcome.isSuccess →
    s.handlers id = some handler → handler.operation = .applyTransaction event →
    (insertAppliedEvent now event s.events).1 = .error e →
    ∃ eventId, e = .duplicateEventConflict eventId

-- A success that changes the table inserts a row that is read back.
theorem Regular.currency (h : Regular s (.settle id now outcome)) {handler : Handler}
    (ho : outcome.isSuccess) (hh : s.handlers id = some handler)
    (he : handler.operation = .applyTransaction event)
    (hn : (insertAppliedEvent now event s.events).2 ≠ s.events) : event.currency.length = 3 := by
  have hi := fun e => h.inserts id now outcome handler event e rfl ho hh he
  have hp := insertAppliedEvent_put now event s.events
  generalize insertAppliedEvent now event s.events = result at hi hn hp
  obtain ⟨x, u⟩ := result
  cases hp
  case inserted hr _ => exact (eventFromRow_inserted_iff.mp (Except.mapError_eq_ok hr)).1
  case unread hr _ =>
    obtain ⟨e, _, rfl⟩ := Except.mapError_eq_error hr
    obtain ⟨_, he⟩ := hi _ rfl
    cases he
  all_goals exact absurd rfl hn

namespace Audited

theorem settle (h : Audited client s) (hg : Regular s (.settle id now outcome))
    (hs : s.settle client id now outcome = some s') : Audited client s' := by
  obtain ⟨operation, attempt, reply, hh, ht, hc⟩ := Turn.settle hs
  obtain ⟨_, _, reply', hh', hk⟩ := Books.settle hs (h.requested id)
  cases hh.symm.trans hh'
  cases hk.reply_eq ht
  refine h.turn (h.sound.running id _ hh) ht hk (fun event he hn => ?_) fun _ => h.requested id _ hh
  subst he
  have ho := hc.resolve_left hn
  obtain ⟨payload, hp⟩ : ∃ payload, s.settle client id now outcome =
      some ({ s with breaker := .closed }.returned id now (.applyTransaction event) payload) :=
    State.settle_success hh ho
  cases hp.symm.trans hs
  rw [State.returned_applyTransaction, State.inserted_events] at hn
  exact hg.currency ho hh rfl hn

theorem step (h : Audited client s) (hg : Regular s a) (hs : (machine client).step s a = some s') :
    Audited client s' := by
  obtain ⟨⟨u, sent⟩, hu, he⟩ := Option.map_eq_some_iff.mp hs
  subst he
  cases a
  case begin operation =>
    have hu := Option.some.inj hu
    obtain ⟨_, ht, he⟩ := Turn.begin client s operation
    obtain ⟨_, hk⟩ := Books.begin client s operation
    rw [hu] at ht he hk
    cases hk.reply_eq ht
    have hb : (s.start operation).begun[s.begun.length]? = some operation := by simp [State.start]
    exact (h.start operation).turn hb ht hk (fun _ _ hn => absurd he hn) fun hn => absurd he hn
  case settle id now outcome =>
    obtain ⟨_, ht, he⟩ := Option.map_eq_some_iff.mp hu
    cases he
    exact h.settle hg ht
  case wake id =>
    obtain ⟨_, _, _, _, hh, ht, he⟩ := Turn.wake hu
    obtain ⟨_, _, _, _, hh', hk⟩ := Books.wake hu
    cases hh.symm.trans hh'
    cases hk.reply_eq ht
    exact h.turn (h.sound.running id _ hh) ht hk (fun _ _ hn => absurd he hn) fun hn => absurd he hn
  case wait duration =>
    obtain ⟨_, hw, he⟩ := Option.map_eq_some_iff.mp hu
    cases he
    unfold State.wait at hw
    split at hw
    case isFalse => cases hw
    case isTrue =>
      cases hw
      obtain ⟨h₁, h₂, h₃, h₄, h₅⟩ := h.reconciles
      exact ⟨h.sound.idle rfl rfl rfl (.inl rfl), h.requested, h.rendered, ⟨h₁, h₂, h₃, h₄, h₅⟩⟩
  case restart => exact absurd rfl hg.continues

end Audited

-- In every state of such a run, whatever handlers are under way.
theorem counters_reconcile {as : List Action} (hr : (machine client).run as = some s)
    (hg : (machine client).Meets Regular .init as) : Reconciles s :=
  (Machine.runFrom_invariant_of_meets (fun _ _ _ hi hc hs => hi.step hc hs) Audited.init hg
    hr).reconciles

-- An insertion into a table that can be read fails only by a conflict, unless upper case has made
-- the currency longer.
theorem conflict_of_error {t : Events} {e : InsertError}
    (hw : ∀ row ∈ t.rows, ∃ record, eventFromRow row = .ok record)
    (hc : event.currency.length = 3) (he : (insertAppliedEvent now event t).1 = .error e) :
    ∃ eventId, e = .duplicateEventConflict eventId := by
  have hp := insertAppliedEvent_put now event t
  generalize insertAppliedEvent now event t = result at he hp
  obtain ⟨x, u⟩ := result
  cases hp
  case replayed    => cases he
  case inserted    => cases he
  case conflicting => exact ⟨_, (Except.error.inj he).symm⟩
  case refused hg  => cases hg
  case stale hr hf =>
    obtain ⟨record, hrow⟩ := hw _ (Table.find?_eq_some.mp hf).1
    obtain ⟨_, hr, _⟩ := Except.mapError_eq_error hr
    cases hr.symm.trans hrow
  case unread hr _ =>
    obtain ⟨_, hr, _⟩ := Except.mapError_eq_error hr
    cases hr.symm.trans (eventFromRow_inserted hc)

theorem Sound.meets_regular {as : List Action} (h : Sound s) (hr : .restart ∉ as) (hp : s.Plain)
    (ha : ∀ event, .begin (.applyTransaction event) ∈ as → event.currency.length = 3) :
    (machine client).Meets Regular s as := by
  refine h.meets_of_plain hp ha fun t a hm ht hp => ⟨fun he => hr (he ▸ hm), ?_⟩
  intro id now _ handler event e _ _ hh ho
  exact conflict_of_error (fun _ => ht.readable) (ht.length_of_plain hp hh ho)

-- A submission that the Account Service accepts.
def sampleRun : List Action :=
  [
    .begin (.applyTransaction .sample),
    .settle 0 EventPayload.sample.eventTimestamp
      (.response { status := 201, body := .json EventPayload.sample.body })
  ]

-- A submission that is accepted and made again, and one that conflicts with it.
def repeatedRun : List Action :=
  sampleRun ++
    [
      .begin (.applyTransaction .sample),
      .begin (.applyTransaction { EventPayload.sample with type := .debit })
    ]

theorem counters_reconcile_repeated : ∃ s, (machine .default).run repeatedRun = some s ∧
    (s.count "gateway.events.accepted", s.count "gateway.events.duplicate_replay",
      s.count "gateway.events.idempotency_conflict") = (1, 1, 1) ∧ Reconciles s := by
  have hc : ((machine .default).run repeatedRun).map (fun s =>
      (s.count "gateway.events.accepted", s.count "gateway.events.duplicate_replay",
        s.count "gateway.events.idempotency_conflict")) = some (1, 1, 1) := by
    decide +kernel
  obtain ⟨s, hs, hc⟩ := Option.map_eq_some_iff.mp hc
  refine ⟨s, hs, hc, counters_reconcile hs (Sound.init.meets_regular ?_ .init ?_)⟩
  case refine_1 => simp [repeatedRun, sampleRun]
  case refine_2 =>
    intro event he
    simp only [repeatedRun, sampleRun, List.cons_append, List.nil_append, List.mem_cons,
      Action.begin.injEq, Operation.applyTransaction.injEq, reduceCtorEq, List.not_mem_nil,
      false_or, or_false] at he
    rcases he with rfl | rfl | rfl <;> rfl

end Gateway
