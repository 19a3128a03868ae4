import EventLedger.Gateway.Theorems.Orderly
import EventLedger.System.Theorems.History
import EventLedger.System.Theorems.Reading
import EventLedger.System.Theorems.Delivery

namespace System

open Http

open Gateway (Client Fine Operation Orderly Outcome Sent)
open Account (TransactionRow)

variable {client : Client} {s s' : State} {a : Action} {operation : Operation} {m : Sent}
variable {p q : EventPayload} {order : RowOrder TransactionRow} {now : Civil}

-- A payload whose request can be built and arrives where it should.
structure Addressable (client : Client) (event : EventPayload) : Prop where
  carries : client.Carries (.applyTransaction event)
  sendable : (event.encode client.dumps).isSome

theorem Addressable.request (h : Addressable client p) :
    (client.request (.applyTransaction p)).isSome := by
  have ⟨path, hp⟩ := h.carries.encode
  have ⟨body, hb⟩ := Option.isSome_iff_exists.mp h.sendable
  have hp : Url.encode client.rules (Gateway.transactionsPath p.accountId) = some path := hp
  simp [Client.request, hb, hp]

theorem Addressable.dispatch (h : Addressable client p)
    (hm : client.request (.applyTransaction p) = some m.request) :
    Account.dispatch m.request.method (Url.unquote m.request.path) =
      .endpoint (.applyTransaction p.accountId) :=
  ((Client.reaches_iff_carries client (.applyTransaction p)).2 _ hm).mpr h.carries

-- A response of an error is no surprise.
theorem fine_of_failed {r : Response} (h : 500 ≤ r.status) : Fine operation (.response r) :=
  .failed (decide_eq_true h)

theorem fine_detail {status : ℕ} {text : Text} (h : status = 409 ∨ status = 422) :
    Fine operation (.response (.detail status text)) :=
  .refused h rfl

theorem fine_ofInvalid (e : Invalid) : Fine operation (.response (.ofInvalid e)) := by
  cases e
  case overflow => exact fine_of_failed le_rfl
  case field loc type =>
    refine .refused (.inr rfl) ?_
    simp only [Json.isStandard_obj, Json.isStandard_arr, Response.errorFields, forall_eq,
      List.mem_cons, List.not_mem_nil, or_false, forall_eq_or_imp, List.map_cons,
      List.forall_mem_map]
    exact ⟨rfl, rfl, fun _ _ => rfl⟩

-- The Account Service takes a payload of three characters, or refuses it.
theorem fine_answer (t : Account.State) (hl : p.currency.length = 3)
    (result : Except Account.ApplyError (TransactionRecord × Bool)) :
    Fine (.applyTransaction p) (.response (t.answer result).1) := by
  have hrender : ∀ status content, status < 400 →
      Fine (.applyTransaction p) (.response (.render status content)) := by
    intro status content hs
    unfold Response.render
    split
    case isTrue  => exact .recorded hs rfl hl
    case isFalse => exact fine_of_failed le_rfl
  unfold Account.State.answer
  split
  case h_1 => exact hrender 200 _ (by decide)
  case h_2 => exact hrender 201 _ (by decide)
  case h_3 => exact fine_detail (.inl rfl)
  case h_4 => exact fine_detail (.inl rfl)
  case h_5 => exact fine_of_failed le_rfl

-- What the Account Service answers to a submission that reaches it.
theorem Addressable.fine (h : Addressable client p)
    (hm : client.request (.applyTransaction p) = some m.request) (t : Account.State) :
    Fine (.applyTransaction p) (.response (t.handle order now m.request).1) := by
  have hb := (Client.request_applyTransaction hm).2.1
  simp only [Account.State.handle, h.dispatch hm, Account.State.post, hb]
  cases hq : EventPayload.ofJson p.body
  case error e => exact fine_ofInvalid e
  case ok q =>
    obtain ⟨hl, _, _, _, he⟩ := EventPayload.ofJson_body_iff.mp hq
    have hid : q.accountId = p.accountId := he ▸ rfl
    simp only [Account.State.applyTransaction, hid, ne_eq, not_true_eq_false, if_false]
    exact fine_answer _ hl _

-- A submission of such a payload.
def Postable (client : Client) (operation : Operation) : Prop :=
  ∃ event, operation = .applyTransaction event ∧ Addressable client event

-- What holds while all operations are postable, and no attempt ends in an exception that the client
-- does not catch.
structure Calm (client : Client) (s : State) : Prop where
  sound : Sound client s
  begun : ∀ operation ∈ s.gateway.begun, Postable client operation
  replies : ∀ r ∈ s.replies, ∀ operation, s.gateway.begun[r.tag.handler]? = some operation →
    Fine operation (.response r.response)
  answers : ∀ answer ∈ s.gateway.answers, Orderly s.gateway.events answer.reply

-- An action that keeps this.
structure Gentle (client : Client) (a : Action) : Prop where
  begins : ∀ operation, a = .begin operation → Postable client operation
  fails : ∀ id now e, a = .fail id now e → e.isCaught

theorem Calm.init : Calm client .init where
  sound := .init
  begun := by simp [State.init, Gateway.State.init]
  replies := by simp [State.init]
  answers := by simp [State.init, Gateway.State.init]

-- What a handler of the Gateway awaits ends in good order.
theorem Calm.fine (h : Calm client s) (hg : Gentle client a) {id attempt : ℕ} {now : Civil}
    {outcome : Outcome} (ha : s.gatewayAction a = some (.settle id now outcome))
    (hh : s.gateway.handlers id = some ⟨operation, attempt, .calling⟩) :
    Fine operation outcome := by
  cases a
  case receive i now' =>
    have ⟨reply, hr, he⟩ := Option.map_eq_some_iff.mp ha
    cases he
    exact h.replies reply (List.mem_of_getElem? hr) operation (h.sound.gateway.running _ _ hh)
  case fail id' now' e =>
    cases ha
    exact .failed (hg.fails id now e rfl)
  all_goals cases ha

theorem Calm.step (h : Calm client s) (hm : client.maxAttempts ≤ Client.overflowAttempt)
    (hg : Gentle client a) (hs : (machine client).step s a = some s') : Calm client s' := by
  have hrun : (machine client).runFrom s [a] = some s' := by simp [Machine.runFrom, hs]
  have hold : ∀ r ∈ s.replies, ∀ operation, s'.gateway.begun[r.tag.handler]? = some operation →
      Fine operation (.response r.response) := by
    intro r hr operation ho
    have hlt := h.sound.replied r hr
    have hb := Gateway.State.begun_of_prefix (begun_grows hrun)
      (List.getElem?_eq_getElem hlt)
    exact h.replies r hr operation (by rw [List.getElem?_eq_getElem hlt, ← hb, ho])
  have hbegun : ∀ operation ∈ s'.gateway.begun, Postable client operation := by
    intro operation ho
    cases begun_of_step hs ho
    case inl ho => exact h.begun operation ho
    case inr ha => exact hg.begins operation ha
  constructor
  case sound => exact h.sound.step hs
  case begun => exact hbegun
  case replies =>
    cases State.step_moves hs
    case idle hi => exact fun r hr => hold r (hi.replies hr)
    case turn ht => exact fun r hr => hold r (ht.replies hr)
    case deliver i order now m hm =>
      intro r hr operation ho
      cases List.mem_append.mp hr
      case inl hr => exact hold r hr operation ho
      case inr hr =>
        cases List.mem_singleton.mp hr
        obtain ⟨operation', ho', hreq⟩ := h.sound.requests m (List.mem_of_getElem? hm)
        cases ho'.symm.trans ho
        obtain ⟨event, rfl, haddr⟩ := h.begun operation (List.mem_of_getElem? ho)
        exact haddr.fine hreq s.account
  case answers =>
    cases State.step_moves hs
    case idle hi => exact hi.gateway ▸ h.answers
    case deliver => exact h.answers
    case turn b _ ha ht =>
      intro answer hmem
      have hsub : ∀ operation ∈ s'.gateway.begun,
          operation.submits ∧ (client.request operation).isSome := by
        intro operation ho
        obtain ⟨event, rfl, haddr⟩ := hbegun operation ho
        exact ⟨rfl, haddr.request⟩
      have hans := Gateway.orderly_of_step hm h.sound.gateway ht.step
        (fun operation ho => (hsub operation ho).1) (fun operation ho => (hsub operation ho).2)
        (fun _ _ _ _ _ hb hh => h.fine hg (hb ▸ ha) hh) hmem
      cases hans
      case inl hmem =>
        exact (h.answers answer hmem).extends (Gateway.State.step_moves ht.step).extends
      case inr ho => exact ho

-- An HTTPException of these statuses always has a detail.
theorem exceptionDetail_isStandard {status : ℕ} {detail : Json} (h : status = 409 ∨ status = 422)
    (hd : detail.isStandard) : (Gateway.exceptionDetail status detail).any Json.isStandard := by
  cases detail
  case null => rcases h with rfl | rfl <;> rfl
  all_goals exact hd

-- The status with which such an answer is sent.
theorem Sound.sentStatus (h : Sound client s) {reply : Gateway.Reply}
    (ho : Orderly s.gateway.events reply) : reply.sentStatus ∈ [200, 201, 409, 422, 503] := by
  have hsent : reply.content.any Json.isStandard → reply.sentStatus = reply.status :=
    fun hs => if_pos hs
  cases ho
  case event status row record hst hr hread =>
    obtain ⟨record', hrec⟩ := h.readable hr
    cases hread.symm.trans hrec.read
    rw [hsent hrec.standard]
    rcases hst with rfl | rfl <;> simp [Gateway.Reply.status]
  case refused status detail hst hd =>
    obtain ⟨detail', he, hs⟩ := Option.any_eq_true .. |>.mp (exceptionDetail_isStandard hst hd)
    rw [hsent (by simp [Gateway.Reply.content, he, hs])]
    rcases hst with rfl | rfl <;> simp [Gateway.Reply.status]
  case unavailable => simp [hsent rfl, Gateway.Reply.status]

-- Where all operations are submissions whose accounts can be addressed and whose payloads can be
-- sent, the attempts are few enough for their delays, and the connection fails only by what the
-- client catches, no answer is an internal error, or a status that the API does not have.
theorem statuses_orderly (hm : client.maxAttempts ≤ Client.overflowAttempt) {as : List Action}
    (h : (machine client).run as = some s)
    (hb : ∀ operation, .begin operation ∈ as → Postable client operation)
    (hf : ∀ id now e, .fail id now e ∈ as → e.isCaught) :
    ∀ answer ∈ s.gateway.answers, answer.reply.sentStatus ∈ [200, 201, 409, 422, 503] := by
  have hc : Calm client s := by
    refine Machine.runFrom_invariant_of_meets (m := machine client) (I := Calm client)
      (C := fun _ a => Gentle client a) (fun _ _ _ hi hg hs => hi.step hm hg hs) .init
      (Machine.meets_of_mem fun a ha => ⟨?_, ?_⟩) h
    case refine_1 => exact fun operation he => hb operation (he ▸ ha)
    case refine_2 => exact fun id now e he => hf id now e (he ▸ ha)
  exact fun answer ha => hc.sound.sentStatus (hc.answers answer ha)

theorem addressable_sample : Addressable .default .sample where
  carries := by
    have hr : ((Url.encode Client.default.rules
        (Operation.path (.applyTransaction .sample))).map fun p =>
          Account.dispatch .post (Url.unquote p)) =
        some (.endpoint (Operation.endpoint (.applyTransaction .sample))) := by decide +kernel
    have ⟨p, hp, hd⟩ := Option.map_eq_some_iff.mp hr
    exact Client.Reaches.carries ⟨p, hp, hd⟩
  sendable := by decide +kernel

theorem statuses_orderly_late : ∃ s, (machine .default).run lateRun = some s ∧
    s.gateway.answers.length = 1 ∧
    ∀ answer ∈ s.gateway.answers, answer.reply.sentStatus ∈ [200, 201, 409, 422, 503] := by
  have hr : ((machine .default).run lateRun).map (·.gateway.answers.length) = some 1 := by
    decide +kernel
  have ⟨s, hs, hl⟩ := Option.map_eq_some_iff.mp hr
  refine ⟨s, hs, hl, statuses_orderly (by decide) hs ?_ ?_⟩
  case refine_1 =>
    intro operation hm
    simp only [lateRun, List.mem_cons, Action.begin.injEq, reduceCtorEq, List.not_mem_nil,
      or_false] at hm
    exact ⟨.sample, hm, addressable_sample⟩
  case refine_2 =>
    intro id now e hm
    simp only [lateRun, List.mem_cons, Action.fail.injEq, reduceCtorEq, List.not_mem_nil,
      or_false, false_or] at hm
    exact hm.2.2 ▸ rfl

end System
