import EventLedger.Common.Relay
import EventLedger.Gateway.Theorems.Api
import EventLedger.System.Theorems.Agreement

namespace System

open Http

open Gateway (Client EventRow PublicRequest Route recordDocument recordsDocument)

variable {client : Client} {s : State} {g : EventRow} {event : EventPayload}

-- The record that the Gateway reads from a row.
structure Recorded (g : EventRow) (record : EventRecord) : Prop where
  read : Gateway.eventFromRow g = .ok record
  eventId : record.eventId = g.eventId
  accountId : record.accountId = g.accountId
  standard : (Json.obj record.modelFields).isStandard

theorem recorded_of_accepted {t : Account.Transactions} (h : Accepted client t event)
    (now : Civil) : Recorded (Gateway.insertedRow now event) (Gateway.storedRecord now event) where
  read := Gateway.eventFromRow_inserted (Sound.length_of_accepted h)
  eventId := rfl
  accountId := rfl
  standard := by
    have ⟨q, hq, _⟩ := h.taken
    have ⟨_, x, _, hx, _⟩ := EventPayload.ofJson_body_iff.mp hq
    exact EventRecord.modelFields_isStandard (EventPayload.modelDump_isStandard (hx ▸ rfl))

-- Whatever the Gateway has recorded, it can read and render.
theorem Sound.readable (h : Sound client s) (hg : g ∈ s.gateway.events.rows) :
    ∃ record, Recorded g record := by
  obtain ⟨now, event, rfl, ha⟩ := h.recorded g hg
  exact ⟨_, recorded_of_accepted ha now⟩

-- The answer of a read that finds one record.
def found (record : EventRecord) : Response where
  status := 200
  body := .json (recordDocument record)

theorem Recorded.render {record : EventRecord} (h : Recorded g record) :
    Response.render 200 (recordDocument record) = found record :=
  Response.render_of_isStandard h.standard

theorem getEventResponse_of_recorded {record : EventRecord} (h : Recorded g record)
    (hg : g ∈ s.gateway.events.rows) : s.gateway.getEventResponse g.eventId = found record := by
  have hf : s.gateway.events.find? g.eventId = some g := Table.find?_eq_some.mpr ⟨hg, rfl⟩
  have hr : Gateway.getEvent s.gateway.events g.eventId = .ok (some record) := by
    rw [Gateway.getEvent_some hf, h.read]
    rfl
  rw [Gateway.State.getEventResponse, hr]
  exact h.render

-- The answer of a read that lists records.
def listing (records : List EventRecord) : Response where
  status := 200
  body := .json (recordsDocument records)

-- The records of an account's events, as a read of them answers.
structure Lists (s : State) (order : RowOrder EventRow) (accountId : Text)
    (records : List EventRecord) : Prop where
  read : Gateway.listEventsForAccount order s.gateway.events accountId = .ok records
  eventIds : records.map (·.eventId) =
    (Gateway.listRows order s.gateway.events accountId).map (·.eventId)
  recorded : ∀ record ∈ records, ∃ g ∈ Gateway.accountRows s.gateway.events accountId,
    Recorded g record

theorem Sound.lists (h : Sound client s) (order : RowOrder EventRow) (accountId : Text) :
    ∃ records, Lists s order accountId records := by
  have ⟨entries, he⟩ := List.exists_map_eq
    (f := fun call : { call : Gateway.Call // Accepted client s.account.transactions call.event } =>
      Gateway.insertedRow call.1.now call.1.event)
    (l := Gateway.listRows order s.gateway.events accountId) fun g hm => by
      have hm := (Gateway.listRows_perm ..).mem_iff.mp hm
      obtain ⟨now, event, rfl, ha⟩ := h.recorded g (Gateway.mem_accountRows.mp hm).1
      exact ⟨⟨⟨now, event⟩, ha⟩, rfl⟩
  refine ⟨entries.map fun call => Gateway.storedRecord call.1.now call.1.event, ?_, ?_, ?_⟩
  case refine_1 =>
    have hc : (entries.map (·.1)).map (fun call => Gateway.insertedRow call.now call.event) =
        Gateway.listRows order s.gateway.events accountId := by
      rw [List.map_map, ← he]
      rfl
    refine (Gateway.listEventsForAccount_eq_ok hc).mpr ⟨?_, ?_⟩
    case refine_1 =>
      rw [List.forall_mem_map]
      exact fun call _ => Sound.length_of_accepted call.2
    case refine_2 => rw [List.map_map]; rfl
  case refine_2 => rw [← he, List.map_map, List.map_map]; rfl
  case refine_3 =>
    rw [List.forall_mem_map]
    intro call hc
    refine ⟨_, (Gateway.listRows_perm order _ _).mem_iff.mp ?_, recorded_of_accepted call.2 _⟩
    rw [← he]
    exact List.mem_map_of_mem hc

theorem Lists.render {order : RowOrder EventRow} {accountId : Text} {records : List EventRecord}
    (h : Lists s order accountId records) :
    Response.render 200 (recordsDocument records) = listing records := by
  refine Response.render_of_isStandard (Json.isStandard_arr.mpr ?_)
  rw [List.forall_mem_map]
  intro record hm
  have ⟨g, _, hr⟩ := h.recorded record hm
  exact hr.standard

variable {order : RowOrder EventRow} {request : PublicRequest}

-- The request leads to a handler of the Gateway.
def Targets (request : PublicRequest) (route : Route) : Prop :=
  Router.dispatch Gateway.table request.method (Url.unquote request.path) = .endpoint route

theorem arrive_getEvent {eventId : Text} (h : Targets request (.getEvent eventId)) :
    s.gateway.arrive order request = .answered (s.gateway.getEventResponse eventId) := by
  rw [Gateway.State.arrive, h]

theorem arrive_listEvents {accountId : Text} {records : List EventRecord}
    (h : Targets request .listEvents) (hq : Url.queryParam request.query "account" = some accountId)
    (hn : accountId ≠ [])
    (hr : Gateway.listEventsForAccount order s.gateway.events accountId = .ok records) :
    s.gateway.arrive order request =
      .answered (Response.render 200 (recordsDocument records)) := by
  rw [Gateway.State.arrive, h]
  simp only [Gateway.State.listEvents, hq]
  cases accountId
  case nil  => exact absurd rfl hn
  case cons => simp only [hr]

-- What the Gateway answers to the reads of its own table: each of them succeeds, and the two kinds
-- of them agree.
structure Served (s : State) (order : RowOrder EventRow) : Prop where
  found : ∀ g ∈ s.gateway.events.rows, ∃ record, Recorded g record ∧
    ∀ request, Targets request (.getEvent g.eventId) →
      s.gateway.arrive order request = .answered (found record)
  missing : ∀ eventId, s.gateway.events.find? eventId = none →
    ∀ request, Targets request (.getEvent eventId) →
      s.gateway.arrive order request = .answered (.detail 404 "event not found".toList)
  listed : ∀ accountId ≠ [], ∃ records,
    (records.map (·.eventId)).Perm
      ((Gateway.accountRows s.gateway.events accountId).map (·.eventId)) ∧
    (∀ record ∈ records, ∃ g ∈ Gateway.accountRows s.gateway.events accountId, Recorded g record) ∧
    ∀ request, Targets request .listEvents →
      Url.queryParam request.query "account" = some accountId →
      s.gateway.arrive order request = .answered (listing records)

theorem Sound.served (hs : Sound client s) (order : RowOrder EventRow) : Served s order := by
  constructor
  case found =>
    intro g hg
    have ⟨record, hr⟩ := hs.readable hg
    exact ⟨record, hr, fun request ht =>
      (arrive_getEvent ht).trans (congrArg _ (getEventResponse_of_recorded hr hg))⟩
  case missing =>
    intro eventId hn request ht
    rw [arrive_getEvent ht, Gateway.State.getEventResponse, Gateway.getEvent_none hn]
  case listed =>
    intro accountId hn
    have ⟨records, hl⟩ := hs.lists order accountId
    refine ⟨records, ?_, hl.recorded, fun request ht hq => ?_⟩
    case refine_1 => exact hl.eventIds ▸ (Gateway.listRows_perm ..).map _
    case refine_2 => rw [arrive_listEvents ht hq hn hl.read, hl.render]

theorem reads_served (h : (machine client).Reachable s) (order : RowOrder EventRow) :
    Served s order :=
  (Sound.of_reachable h).served order

theorem reads_served_sample : ∃ s, (machine .default).run (recordingRun .sample) = some s ∧
    Served s .inserted := by
  have hr : ((machine .default).run (recordingRun .sample)).isSome := by decide +kernel
  have ⟨s, hs⟩ := Option.isSome_iff_exists.mp hr
  exact ⟨s, hs, reads_served ⟨_, hs⟩ .inserted⟩

theorem recordDocument_eventId {r r' : EventRecord} (h : recordDocument r = recordDocument r') :
    r.eventId = r'.eventId :=
  Json.str.inj (congrArg Prod.snd (List.cons.inj (Json.obj.inj (congrArg Subtype.val h))).1)

-- Nothing but the handler of one event answers with a record.
theorem arrive_found {record : EventRecord}
    (h : s.gateway.arrive order request = .answered (found record)) :
    ∃ eventId, Targets request (.getEvent eventId) ∧
      s.gateway.getEventResponse eventId = found record := by
  have hstatus : ∀ r : Response, r.status ≠ 200 →
      Gateway.Arrival.answered r ≠ .answered (found record) :=
    fun r hr he => hr (congrArg Response.status (Gateway.Arrival.answered.inj he))
  unfold Gateway.State.arrive at h
  split at h
  case h_2 eventId hd => exact ⟨eventId, hd, Gateway.Arrival.answered.inj h⟩
  case h_1 =>
    split at h
    case h_1 => exact absurd h (hstatus _ (by decide))
    case h_2 =>
      split at h
      case h_2 => cases h
      case h_1 e _ => exact absurd h (hstatus _ fun he => by cases e <;> cases he)
  case h_3 =>
    have h := Gateway.Arrival.answered.inj h
    unfold Gateway.State.listEvents at h
    split at h
    case h_1 => cases congrArg Response.status h
    case h_2 => cases congrArg Response.status h
    case h_3 =>
      split at h
      case h_1 => cases congrArg Response.status h
      case h_2 =>
        unfold Response.render at h
        split at h
        case isTrue  => cases congrArg Response.body h
        case isFalse => cases congrArg Response.status h
  case h_8  => exact absurd h (hstatus _ (by decide))
  case h_9  => exact absurd h (hstatus _ (by decide))
  case h_10 => exact absurd h (hstatus _ (by decide))
  all_goals cases h

theorem Sound.eventId_of_found (h : Sound client s) {eventId : Text} {record : EventRecord}
    (hf : s.gateway.getEventResponse eventId = found record) : record.eventId = eventId := by
  cases he : s.gateway.events.find? eventId
  case none =>
    rw [Gateway.State.getEventResponse, Gateway.getEvent_none he] at hf
    cases congrArg Response.status hf
  case some g =>
    have ⟨hg, hk⟩ := Table.find?_eq_some.mp he
    have ⟨record', hr⟩ := h.readable hg
    rw [← hk, getEventResponse_of_recorded hr hg] at hf
    have hd := Body.json.inj (congrArg Response.body hf)
    exact (recordDocument_eventId hd).symm.trans (hr.eventId.trans hk)

def getRequest (path query : Text) : PublicRequest where
  method := .get
  path
  body := none
  query

theorem targets_events (query : Text) : Targets (getRequest "/events" query) .listEvents := by
  have hd : Router.dispatch Gateway.table .get (Url.unquote "/events") = .endpoint .listEvents := by
    decide +kernel
  exact hd

-- Every event that has been recorded is in the list of its account, but there is a path to it just
-- if its id has no slash.
theorem event_addressable (h : (machine client).Reachable s) (order : RowOrder EventRow)
    (hg : g ∈ s.gateway.events.rows) :
    ((∃ request record, s.gateway.arrive order request = .answered (found record) ∧
      record.eventId = g.eventId) ↔ '/' ∉ g.eventId) ∧
    ∃ request records record, s.gateway.arrive order request = .answered (listing records) ∧
      record ∈ records ∧ Recorded g record := by
  have hs := Sound.of_reachable h
  have hserved := hs.served order
  have ⟨now, event, he, _⟩ := hs.recorded g hg
  refine ⟨⟨fun ⟨request, record, ha, hid⟩ => ?_, fun hn => ?_⟩, ?_⟩
  case refine_1 =>
    have ⟨eventId, ht, hf⟩ := arrive_found ha
    have hid : eventId = g.eventId := (hs.eventId_of_found hf).symm.trans hid
    have hm := (Route.dispatch_iff.mp ht).1
    have hr := (Route.reachable_iff (.getEvent eventId)).mp ⟨request.path, hm ▸ ht⟩
    exact hid ▸ (hr eventId List.mem_cons_self).2
  case refine_2 =>
    have ⟨path, hp⟩ := (Route.reachable_iff (.getEvent g.eventId)).mpr fun a ha => by
      cases List.mem_singleton.mp ha
      exact ⟨he ▸ event.eventId_valid.1, hn⟩
    have ⟨record, hr, hf⟩ := hserved.found g hg
    exact ⟨getRequest path [], record, hf _ hp, hr.eventId⟩
  case refine_3 =>
    have ha : g.accountId ≠ [] := he ▸ event.accountId_valid.1
    have ⟨records, hp, hr, hl⟩ := hserved.listed g.accountId ha
    have hm := hp.mem_iff.mpr (List.mem_map_of_mem (Gateway.mem_accountRows.mpr ⟨hg, rfl⟩))
    have ⟨record, hm, hid⟩ := List.mem_map.mp hm
    have ⟨g', hg', hr⟩ := hr record hm
    have hg' : g' = g := List.inj_on_of_nodup_map s.gateway.events.nodup
      (Gateway.mem_accountRows.mp hg').1 hg (hr.eventId.symm.trans hid)
    exact ⟨_, records, record, hl _ (targets_events _)
      (Url.queryParam_escapeAll "account" g.accountId), hm, hg' ▸ hr⟩

theorem event_addressable_sample : ∃ s g, (machine .default).run (recordingRun .sample) = some s ∧
    g ∈ s.gateway.events.rows ∧ ∃ request record,
      s.gateway.arrive .inserted request = .answered (found record) ∧
      record.eventId = g.eventId := by
  have hr : ((machine .default).run (recordingRun .sample)).map
      (fun s => s.gateway.events.rows.map (·.eventId)) = some [EventPayload.sample.eventId] := by
    decide +kernel
  have ⟨s, hs, he⟩ := Option.map_eq_some_iff.mp hr
  have ⟨g, hg, hid⟩ := List.map_eq_singleton_iff.mp he
  have hm : g ∈ s.gateway.events.rows := by simp [hg]
  exact ⟨s, g, hs, hm, (event_addressable ⟨_, hs⟩ .inserted hm).1.mpr (hid ▸ by decide)⟩

end System
