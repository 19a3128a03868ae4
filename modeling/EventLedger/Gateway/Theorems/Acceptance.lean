import EventLedger.Gateway.Theorems.Steps

namespace Gateway

variable {client : Client} {s s' : State} {id : ℕ} {operation : Operation} {event : EventPayload}
variable {sent : Option Sent} {reply : Option Reply} {t u : Events} {a : Action}

namespace State

-- The event that a handler was asked to submit.
def submitted (s : State) (id : ℕ) : Option EventPayload :=
  match s.begun[id]? with
  | some (.applyTransaction event) => some event
  | _                              => none

-- The number of answers with the status 201 to the submissions of one event.
def created (s : State) (eventId : Text) : ℕ :=
  s.answers.countP fun a =>
    a.reply.status = 201 ∧ (s.submitted a.handler).map (·.eventId) = some eventId

theorem begun_of_prefix (hb : s.begun <+: s'.begun) (h : s.begun[id]? = some operation) :
    s'.begun[id]? = some operation := by
  obtain ⟨more, hm⟩ := hb
  obtain ⟨hi, _⟩ := List.getElem?_eq_some_iff.mp h
  rw [← hm, List.getElem?_append_left hi, h]

theorem submitted_of_prefix (hb : s.begun <+: s'.begun) (hi : id < s.begun.length) :
    s'.submitted id = s.submitted id := by
  obtain ⟨more, hm⟩ := hb
  rw [submitted, ← hm, List.getElem?_append_left hi, submitted]

theorem submitted_eq_some : s.submitted id = some event ↔
    s.begun[id]? = some (.applyTransaction event) := by
  unfold submitted
  split
  case h_1 h => simp [h]
  case h_2 h => simpa using fun he => h _ he

end State

theorem getEvent_extends (h : t.Extends u) {eventId : Text} {record : EventRecord}
    (hg : getEvent t eventId = .ok (some record)) : getEvent u eventId = .ok (some record) := by
  obtain ⟨row, hf, hr⟩ := getEvent_eq_some hg
  rw [getEvent_some (h.find? hf), hr]
  rfl

-- What holds of the table and of the answers in every state.
structure Sound (s : State) : Prop where
  written : ∀ row ∈ s.events.rows, ∃ now event,
    row = insertedRow now event ∧ event.currency.length = 3
  running : ∀ id h, s.handlers id = some h → s.begun[id]? = some h.operation
  known : ∀ a ∈ s.answers, a.handler < s.begun.length
  recorded : ∀ a ∈ s.answers, ∀ event, s.submitted a.handler = some event → a.reply.status < 400 →
    ∃ record, getEvent s.events event.eventId = .ok (some record) ∧
      (a.reply = .event 200 record ∨ a.reply = .event 201 record)
  created : ∀ eventId, s.created eventId = if (s.events.find? eventId).isSome then 1 else 0

namespace Sound

theorem init : Sound .init where
  written := by simp [State.init, Table.empty]
  running := by simp [State.init]
  known := by simp [State.init]
  recorded := by simp [State.init]
  created := by simp [State.init, State.created, Table.empty, Table.find?]

theorem readable (h : Sound s) {row : EventRow} (hr : row ∈ s.events.rows) :
    ∃ record, eventFromRow row = .ok record := by
  obtain ⟨now, event, he, hl⟩ := h.written row hr
  exact ⟨_, he ▸ eventFromRow_inserted hl⟩

theorem getEvent (h : Sound s) {eventId : Text} {row : EventRow}
    (hf : s.events.find? eventId = some row) :
    ∃ record, getEvent s.events eventId = .ok (some record) := by
  obtain ⟨record, hr⟩ := h.readable (Table.find?_eq_some.mp hf).1
  exact ⟨record, by rw [getEvent_some hf, hr]; rfl⟩

theorem submitted_start (h : Sound s) (operation : Operation) {a : Answer} (ha : a ∈ s.answers) :
    (s.start operation).submitted a.handler = s.submitted a.handler :=
  State.submitted_of_prefix (List.prefix_append _ _) (h.known a ha)

theorem start (h : Sound s) (operation : Operation) : Sound (s.start operation) where
  written := h.written
  running id handler hh :=
    State.begun_of_prefix (List.prefix_append _ _) (h.running id handler hh)
  known a ha := by
    have := h.known a ha
    simp only [State.start, List.length_append, List.length_singleton]
    omega
  recorded a ha event hs := by
    rw [h.submitted_start operation ha] at hs
    exact h.recorded a ha event hs
  created eventId := by
    have : (s.start operation).created eventId = s.created eventId :=
      List.countP_congr fun a ha => by rw [h.submitted_start operation ha]
    rw [this]
    exact h.created eventId

theorem rows_turn (ht : Turn client s id operation s' sent reply)
    (hl : ∀ event, operation = .applyTransaction event → s'.events ≠ s.events →
      event.currency.length = 3) : s'.events = s.events ∨ ∃ event now,
      operation = .applyTransaction event ∧ event.currency.length = 3 ∧
      s.events.find? event.eventId = none ∧
      s'.events.rows = s.events.rows ++ [insertedRow now event] := by
  rcases ht.effect.rows_cases with he | ⟨event, now, ho, hf, hu⟩
  case inl => exact .inl he
  case inr =>
    refine .inr ⟨event, now, ho, hl event ho fun he => ?_, hf, hu⟩
    simp [he] at hu

theorem extends_turn (ht : Turn client s id operation s' sent reply) :
    s.events.Extends s'.events := by
  rcases ht.effect.rows_cases with he | ⟨_, _, _, _, hu⟩
  case inl => exact he ▸ .refl _
  case inr => exact ⟨_, hu.symm⟩

theorem submitted_turn (ht : Turn client s id operation s' sent reply) (j : ℕ) :
    s'.submitted j = s.submitted j := by
  simp only [State.submitted, ht.begun]

-- What the new answer, if there is one, says about the event of its handler.
theorem recorded_turn (ht : Turn client s id operation s' sent reply)
    (ho : operation = .applyTransaction event) {r : Reply} (hr : reply = some r)
    (hs : r.status < 400) : ∃ record, Gateway.getEvent s'.events event.eventId = .ok (some record) ∧
      (r = .event 200 record ∨ r = .event 201 record) := by
  have he := ht.effect
  generalize s'.events = u at he
  subst hr
  cases he
  case refused _ h4 => exact absurd (h4 event ho) (by omega)
  case replayed e row record hoe hf hrow _ =>
    cases ho.symm.trans hoe
    exact ⟨record, by rw [getEvent_some hf, hrow]; rfl, .inl rfl⟩
  case inserted e now record hoe hf hrow hu =>
    cases ho.symm.trans hoe
    have hn : u.find? event.eventId = some (insertedRow now event) :=
      Table.find?_eq_some.mpr ⟨by simp [hu], rfl⟩
    exact ⟨record, by rw [getEvent_some hn, hrow]; rfl, .inr rfl⟩
  case unread => simp [Reply.status] at hs

theorem submitted_of_begun (hb : s.begun[id]? = some operation) : s.submitted id = some event ↔
    operation = .applyTransaction event := by
  rw [State.submitted_eq_some, hb, Option.some_inj]

theorem created_turn (ht : Turn client s id operation s' sent reply) (eventId : Text) :
    s'.created eventId = s.created eventId + reply.toList.countP fun r =>
      r.status = 201 ∧ (s.submitted id).map (·.eventId) = some eventId := by
  have hc : s'.created eventId = s'.answers.countP fun a =>
      a.reply.status = 201 ∧ (s.submitted a.handler).map (·.eventId) = some eventId := by
    simp only [State.created, submitted_turn ht]
  rw [hc, ht.answers, List.countP_append, List.countP_map]
  rfl

-- The answer is a creation just if the row of the event is new.
theorem created_eq_turn (ht : Turn client s id operation s' sent reply)
    (hb : s.begun[id]? = some operation)
    (hl : ∀ event, operation = .applyTransaction event → s'.events ≠ s.events →
      event.currency.length = 3)
    (hc : ∀ eventId, s.created eventId = if (s.events.find? eventId).isSome then 1 else 0)
    (eventId : Text) :
    s'.created eventId = if (s'.events.find? eventId).isSome then 1 else 0 := by
  rw [created_turn ht, hc]
  have he := ht.effect
  generalize s'.events = u at he hl
  cases he
  case awaiting => simp
  case refused r hr h4 =>
    have : ¬(r.status = 201 ∧ (s.submitted id).map (·.eventId) = some eventId) := by
      rintro ⟨h201, hs⟩
      obtain ⟨event, hs, _⟩ := Option.map_eq_some_iff.mp hs
      have := h4 event ((submitted_of_begun hb).mp hs)
      omega
    rw [Option.toList_some, List.countP_singleton, decide_eq_false this]
    rfl
  case replayed => simp [Reply.status]
  case inserted event now record ho hf hrow hu =>
    have hs := (submitted_of_begun hb).mpr ho
    have hk : (insertedRow now event).eventId = event.eventId := rfl
    rw [Table.find?_append hu, hk]
    by_cases h : event.eventId = eventId
    case pos => simp [← h, hf, hs, Reply.status]
    case neg => simp [h, hs, Reply.status]
  case unread event now e ho hf hrow hu =>
    have hne : u ≠ s.events := fun he => by simp [he] at hu
    rw [eventFromRow_inserted (hl event ho hne)] at hrow
    cases hrow

theorem turn (h : Sound s) (hb : s.begun[id]? = some operation)
    (ht : Turn client s id operation s' sent reply)
    (hl : ∀ event, operation = .applyTransaction event → s'.events ≠ s.events →
      event.currency.length = 3) : Sound s' where
  written row hr := by
    rcases rows_turn ht hl with he | ⟨event, now, _, hc, _, hu⟩
    case inl => exact h.written row (he ▸ hr)
    case inr =>
      rw [hu, List.mem_append, List.mem_singleton] at hr
      rcases hr with hr | hr
      case inl => exact h.written row hr
      case inr => exact ⟨now, event, hr, hc⟩
  running j handler hh := by
    rw [ht.begun]
    by_cases hj : j = id
    case pos =>
      subst hj
      rw [hb, (ht.own handler hh).1]
    case neg => exact h.running j handler (ht.others j hj ▸ hh)
  known a ha := by
    rw [ht.begun]
    rw [ht.answers, List.mem_append, List.mem_map] at ha
    rcases ha with ha | ⟨r, _, he⟩
    case inl => exact h.known a ha
    case inr => exact he ▸ (List.getElem?_eq_some_iff.mp hb).1
  recorded a ha event hs hst := by
    rw [submitted_turn ht] at hs
    rw [ht.answers, List.mem_append, List.mem_map] at ha
    rcases ha with ha | ⟨r, hr, he⟩
    case inl =>
      obtain ⟨record, hg, hc⟩ := h.recorded a ha event hs hst
      exact ⟨record, getEvent_extends (extends_turn ht) hg, hc⟩
    case inr =>
      subst he
      exact recorded_turn ht ((submitted_of_begun hb).mp hs) (Option.mem_toList.mp hr) hst
  created := created_eq_turn ht hb hl h.created

theorem idle (h : Sound s) (he : s'.events = s.events) (ha : s'.answers = s.answers)
    (hb : s'.begun = s.begun) (hh : s'.handlers = s.handlers ∨ s'.handlers = fun _ => none) :
    Sound s' where
  written := he ▸ h.written
  running id handler hi := by
    rw [hb]
    rcases hh with hh | hh
    case inl => exact h.running id handler (hh ▸ hi)
    case inr => simp [hh] at hi
  known := by
    rw [ha, hb]
    exact h.known
  recorded := by
    simp only [State.submitted, ha, hb, he]
    exact h.recorded
  created := by
    simp only [State.created, State.submitted, ha, hb, he]
    exact h.created

-- A step that records only events whose currency has three characters keeps all of this.
theorem moves (h : Sound s) (hm : Moves client s a s' sent)
    (hl : ∀ id now outcome handler event, a = .settle id now outcome → outcome.isSuccess →
      s.handlers id = some handler → handler.operation = .applyTransaction event →
      event.currency.length = 3) : Sound s' := by
  cases hm
  case begin operation _ he ht =>
    have hb : (s.start operation).begun[s.begun.length]? = some operation := by simp [State.start]
    exact (h.start operation).turn hb ht fun _ _ hn => absurd he hn
  case settle id now outcome _ _ _ hh ht hs =>
    refine h.turn (h.running id _ hh) ht fun event ho hn => ?_
    exact hl id now outcome _ event rfl (hs.resolve_left hn) hh ho
  case wake id _ _ _ _ hh he ht => exact h.turn (h.running id _ hh) ht fun _ _ hn => absurd he hn
  case idle he ha hb hh => exact h.idle he ha hb hh

end Sound

-- The downstream call of a payload whose currency is no longer three characters does not succeed.
def Downstream (s : State) (a : Action) : Prop :=
  ∀ id now outcome handler event, a = .settle id now outcome → s.handlers id = some handler →
    handler.operation = .applyTransaction event → event.currency.length ≠ 3 →
    outcome.isSuccess = false

theorem Sound.step (h : Sound s) (hd : Downstream s a) (hs : (machine client).step s a = some s') :
    Sound s' := by
  obtain ⟨⟨u, sent⟩, hu, he⟩ := Option.map_eq_some_iff.mp hs
  subst he
  refine h.moves (State.step_moves hu) fun id now outcome handler event ha ho hh he => ?_
  by_contra hc
  exact absurd ho (by simp [hd id now outcome handler event ha hh he hc])

theorem Sound.run {as : List Action} (h : Sound s) (hm : (machine client).Meets Downstream s as)
    (hr : (machine client).runFrom s as = some s') : Sound s' :=
  Machine.runFrom_invariant_of_meets (fun _ _ _ hi hc ht => hi.step hc ht) h hm hr

theorem Moves.begun_cases (h : Moves client s a s' sent) : s'.begun = s.begun ∨
    ∃ operation, a = .begin operation ∧ s'.begun = s.begun ++ [operation] := by
  cases h
  case begin operation _ _ ht => exact .inr ⟨operation, rfl, ht.begun⟩
  case settle ht _            => exact .inl ht.begun
  case wake ht                => exact .inl ht.begun
  case idle he _              => exact .inl he

-- The operations that have begun are never forgotten.
theorem Moves.begun (h : Moves client s a s' sent) : s.begun <+: s'.begun := by
  rcases h.begun_cases with he | ⟨operation, _, he⟩
  case inl => exact he ▸ List.prefix_refl _
  case inr => exact ⟨[operation], he.symm⟩

-- A request is sent for an operation that has begun.
theorem Moves.asked (h : Moves client s a s' sent) (hs : Sound s) : ∀ m, sent = some m →
    ∃ operation, s'.begun[m.tag.handler]? = some operation ∧
      client.request operation = some m.request := by
  intro m hm
  cases h
  case begin operation _ _ ht =>
    obtain ⟨hi, hr⟩ := ht.sends m hm
    exact ⟨operation, by rw [hi, ht.begun]; simp [State.start], hr⟩
  case settle => cases hm
  case wake hh _ ht =>
    obtain ⟨hi, hr⟩ := ht.sends m hm
    exact ⟨_, by rw [hi, ht.begun, hs.running _ _ hh], hr⟩
  case idle => cases hm

-- The table changes only when a downstream call has succeeded.
theorem Moves.rows_cases (h : Moves client s a s' sent) : s'.events = s.events ∨
    ∃ id now outcome handler event now', a = .settle id now outcome ∧ outcome.isSuccess ∧
      s.handlers id = some handler ∧ handler.operation = .applyTransaction event ∧
      s.events.find? event.eventId = none ∧
      s'.events.rows = s.events.rows ++ [insertedRow now' event] := by
  cases h
  case begin he _ => exact .inl he
  case settle hh ht hs =>
    rcases ht.effect.rows_cases with he | ⟨event, now', ho, hf, hu⟩
    case inl => exact .inl he
    case inr =>
      rcases hs with he | hs
      case inl => exact .inl he
      case inr => exact .inr ⟨_, _, _, _, event, now', rfl, hs, hh, ho, hf, hu⟩
  case wake he _     => exact .inl he
  case idle he _ _ _ => exact .inl he

theorem Moves.extends (h : Moves client s a s' sent) : s.events.Extends s'.events := by
  cases h
  case begin he _    => exact he ▸ .refl _
  case settle ht _   => exact Sound.extends_turn ht
  case wake he _     => exact he ▸ .refl _
  case idle he _ _ _ => exact he ▸ .refl _

theorem machine_extends {as : List Action} (h : (machine client).runFrom s as = some s') :
    s.events.Extends s'.events := by
  refine Machine.runFrom_relation (R := fun s s' => s.events.Extends s'.events)
    (fun s => .refl s.events) (fun _ _ _ => .trans) ?_ h
  intro s a s' hs
  obtain ⟨⟨u, sent⟩, hu, he⟩ := Option.map_eq_some_iff.mp hs
  exact he ▸ (State.step_moves hu).extends

-- A submission of an event has been answered by a reply.
def State.Answered (s : State) (eventId : Text) (reply : Reply) : Prop :=
  ∃ a ∈ s.answers, a.reply = reply ∧ (s.submitted a.handler).map (·.eventId) = some eventId

def Reply.isOk (reply : Reply) : Bool :=
  200 ≤ reply.status ∧ reply.status < 300

-- A submission is answered at once, without a call of the Account Service.
structure AnswersAtOnce (client : Client) (s : State) (event : EventPayload) (reply : Reply) :
    Prop where
  unsent : (s.begin client (.applyTransaction event)).2 = none
  events : (s.begin client (.applyTransaction event)).1.events = s.events
  ended : (s.begin client (.applyTransaction event)).1.handlers s.begun.length = none
  answers : (s.begin client (.applyTransaction event)).1.answers =
    s.answers ++ [{ handler := s.begun.length, reply }]

theorem Sound.answered (h : Sound s) {eventId : Text} {reply : Reply}
    (ha : s.Answered eventId reply) (ho : reply.isOk) : ∃ record,
    Gateway.getEvent s.events eventId = .ok (some record) ∧
    (reply = .event 200 record ∨ reply = .event 201 record) := by
  obtain ⟨a, hm, hr, hs⟩ := ha
  obtain ⟨event, hs', he⟩ := Option.map_eq_some_iff.mp hs
  subst hr he
  simp only [Reply.isOk, decide_eq_true_eq] at ho
  exact h.recorded a hm event hs' (by omega)

theorem answersAtOnce_same {record : EventRecord}
    (hg : Gateway.getEvent s.events event.eventId = .ok (some record))
    (hs : record.SameFacts event) : AnswersAtOnce client s event (.event 200 record) := by
  have hb : s.begin client (.applyTransaction event) =
      ((s.start (.applyTransaction event)).recordDomainEvent "gateway.events.duplicate_replay"
        |>.answer s.begun.length (.event 200 record), none) := by
    have hg : Gateway.getEvent (s.start (.applyTransaction event)).events event.eventId =
      .ok (some record) := hg
    simp only [State.begin, State.submitEvent, hg, sameEvent_iff.mpr hs, if_true]
  constructor <;> simp [hb, State.answer, State.recordDomainEvent, State.start]

theorem answersAtOnce_different {record : EventRecord}
    (hg : Gateway.getEvent s.events event.eventId = .ok (some record))
    (hs : ¬record.SameFacts event) :
    AnswersAtOnce client s event (.refused 409 conflictDetail) := by
  have hb : s.begin client (.applyTransaction event) =
      ((s.start (.applyTransaction event)).conflict s.begun.length, none) := by
    have hg : Gateway.getEvent (s.start (.applyTransaction event)).events event.eventId =
      .ok (some record) := hg
    have hs : ¬sameEvent record.toEventPayload event := sameEvent_iff.not.mpr hs
    simp only [State.begin, State.submitEvent, hg, if_neg hs]
  constructor <;> simp [hb, State.conflict, State.answer, State.recordDomainEvent, State.start]

-- What a run from `s` to `s'` says about the submissions of one event.
structure Acceptance (client : Client) (s s' : State) (eventId : Text) : Prop where
  once : s'.created eventId ≤ 1
  same : ∀ reply reply', s'.Answered eventId reply → s'.Answered eventId reply' → reply.isOk →
    reply'.isOk → ∃ record, (reply = .event 200 record ∨ reply = .event 201 record) ∧
    (reply' = .event 200 record ∨ reply' = .event 201 record)
  served : ∀ reply, s.Answered eventId reply → reply.isOk → ∃ record,
    (reply = .event 200 record ∨ reply = .event 201 record) ∧
    s'.getEvent eventId = .event 200 record
  settled : ∀ row, s.events.find? eventId = some row → ∃ record, eventFromRow row = .ok record ∧
    s'.getEvent eventId = .event 200 record ∧
    ∀ event : EventPayload, event.eventId = eventId →
      (record.SameFacts event → AnswersAtOnce client s' event (.event 200 record)) ∧
      (¬record.SameFacts event → AnswersAtOnce client s' event (.refused 409 conflictDetail))

theorem State.getEvent_of_ok {eventId : Text} {record : EventRecord}
    (h : Gateway.getEvent s.events eventId = .ok (some record)) :
    s.getEvent eventId = .event 200 record := by
  rw [State.getEvent, h]

theorem Sound.acceptance (h : Sound s) (h' : Sound s') (he : s.events.Extends s'.events)
    (eventId : Text) : Acceptance client s s' eventId where
  once := by
    rw [h'.created eventId]
    split <;> decide
  same reply reply' ha ha' ho ho' := by
    obtain ⟨record, hg, hr⟩ := h'.answered ha ho
    obtain ⟨record', hg', hr'⟩ := h'.answered ha' ho'
    cases hg.symm.trans hg'
    exact ⟨record, hr, hr'⟩
  served reply ha ho := by
    obtain ⟨record, hg, hr⟩ := h.answered ha ho
    exact ⟨record, hr, State.getEvent_of_ok (getEvent_extends he hg)⟩
  settled row hf := by
    obtain ⟨record, hg⟩ := h.getEvent hf
    obtain ⟨row', hf', hr⟩ := getEvent_eq_some hg
    cases hf.symm.trans hf'
    have hg := getEvent_extends he hg
    refine ⟨record, hr, State.getEvent_of_ok hg, fun event hi => ?_⟩
    subst hi
    exact ⟨answersAtOnce_same hg, answersAtOnce_different hg⟩

-- Between any two states of a run, and for every event.
theorem submitEvent_accepts_once {before more : List Action}
    (hr : (machine client).run before = some s)
    (hr' : (machine client).runFrom s more = some s')
    (hm : (machine client).Meets Downstream .init (before ++ more)) (eventId : Text) :
    Acceptance client s s' eventId := by
  obtain ⟨hb, hm⟩ := Machine.meets_append.mp hm
  have h := Sound.init.run hb hr
  exact h.acceptance (h.run (hm s hr) hr') (machine_extends hr') eventId

-- Upper case has made no currency of a submitted payload longer.
def State.Plain (s : State) : Prop :=
  ∀ event, .applyTransaction event ∈ s.begun → event.currency.length = 3

theorem State.Plain.init : State.init.Plain :=
  nofun

theorem Sound.length_of_plain (h : Sound s) (hp : s.Plain) {handler : Handler}
    (hh : s.handlers id = some handler) (he : handler.operation = .applyTransaction event) :
    event.currency.length = 3 :=
  hp event (List.mem_of_getElem? (he ▸ h.running id handler hh))

theorem Sound.downstream (h : Sound s) (hp : s.Plain) : Downstream s a :=
  fun _ _ _ _ _ _ hh he hn => absurd (h.length_of_plain hp hh he) hn

theorem State.Plain.step (h : s.Plain)
    (ha : ∀ event, a = .begin (.applyTransaction event) → event.currency.length = 3)
    (hs : (machine client).step s a = some s') : s'.Plain := by
  intro event hm
  obtain ⟨⟨u, sent⟩, hu, rfl⟩ := Option.map_eq_some_iff.mp hs
  rcases (State.step_moves hu).begun_cases with hb | ⟨operation, rfl, hb⟩
  case inl => exact h event (hb ▸ hm)
  case inr =>
    rw [hb, List.mem_append, List.mem_singleton] at hm
    rcases hm with hm | hm
    case inl => exact h event hm
    case inr => exact ha event (hm ▸ rfl)

-- What is true of the steps of such states is true of all steps of a run.
theorem Sound.meets_of_plain {C : State → Action → Prop} {as : List Action} (h : Sound s)
    (hp : s.Plain)
    (ha : ∀ event, .begin (.applyTransaction event) ∈ as → event.currency.length = 3)
    (hc : ∀ (t : State) a, a ∈ as → Sound t → t.Plain → C t a) : (machine client).Meets C s as := by
  induction as generalizing s
  case nil => trivial
  case cons a as hi =>
    refine ⟨hc s a List.mem_cons_self h hp, fun t ht => ?_⟩
    refine hi (h.step (h.downstream hp) ht) (hp.step (fun event he => ?_) ht) (fun event hm => ?_)
      fun t b hb => hc t b (List.mem_cons_of_mem a hb)
    case refine_1 => exact ha event (he ▸ List.mem_cons_self)
    case refine_2 => exact ha event (List.mem_cons_of_mem a hm)

-- Three submissions of one event overlap, and the Account Service accepts the first one.
def firstAccepted : List Action :=
  [
    .begin (.applyTransaction .sample),
    .begin (.applyTransaction .sample),
    .begin (.applyTransaction .wideCredit),
    .settle 0 EventPayload.sample.eventTimestamp
      (.response { status := 201, body := .json EventPayload.sample.body })
  ]

-- It accepts the others too.
def othersAccepted : List Action :=
  [
    .settle 1 EventPayload.sample.eventTimestamp
      (.response { status := 200, body := .json EventPayload.sample.body }),
    .settle 2 EventPayload.sample.eventTimestamp
      (.response { status := 200, body := .json EventPayload.sample.body })
  ]

theorem submitEvent_accepts_once_overlapping : ∃ s s',
    (machine .default).run firstAccepted = some s ∧
    (machine .default).runFrom s othersAccepted = some s' ∧
    s.answers.map (fun a => (a.handler, a.reply.status)) = [(0, 201)] ∧
    s'.answers.map (fun a => (a.handler, a.reply.status)) = [(0, 201), (1, 200), (2, 409)] ∧
    Acceptance .default s s' EventPayload.sample.eventId := by
  have hb : ((machine .default).run firstAccepted).map (fun s =>
      s.answers.map fun a => (a.handler, a.reply.status)) = some [(0, 201)] := by decide +kernel
  have hm : ((machine .default).run (firstAccepted ++ othersAccepted)).map (fun s =>
      s.answers.map fun a => (a.handler, a.reply.status)) =
      some [(0, 201), (1, 200), (2, 409)] := by decide +kernel
  obtain ⟨s, hs, ha⟩ := Option.map_eq_some_iff.mp hb
  obtain ⟨s', hs', ha'⟩ := Option.map_eq_some_iff.mp hm
  rw [Machine.run, Machine.runFrom_append] at hs'
  obtain ⟨t, ht, hs'⟩ := Option.bind_eq_some_iff.mp hs'
  cases ht.symm.trans hs
  have hd : (machine .default).Meets Downstream .init (firstAccepted ++ othersAccepted) := by
    refine Sound.init.meets_of_plain .init (fun event hm => ?_) fun _ _ _ hs hp => hs.downstream hp
    simp only [firstAccepted, othersAccepted, List.cons_append, List.nil_append, List.mem_cons,
      Action.begin.injEq, Operation.applyTransaction.injEq, reduceCtorEq, List.not_mem_nil,
      or_false] at hm
    rcases hm with rfl | rfl | rfl <;> rfl
  exact ⟨s, s', hs, hs', ha, ha', submitEvent_accepts_once hs hs' hd _⟩

end Gateway
