import EventLedger.Account.Theorems.Rejection
import EventLedger.Gateway.Theorems.Answers
import EventLedger.System.Theorems.Agreement
import EventLedger.System.Theorems.Recovery

namespace System

open Http

open Gateway (Client)
open Account (Barred)

variable {client : Client} {s s' u : State} {a : Action} {p : EventPayload} {request : Request}
variable {id : ℕ}

-- No attempt of a submission has inserted a row, and none will.
structure Rejected (s : State) (id : ℕ) (request : Request) : Prop where
  attempts : ∀ d ∈ s.deliveries, d.sent.tag.handler = id → d.inserted = false
  barred : Barred s.account.transactions request

-- A client error for a handler is under way or has been answered.
def Rejecting (s : State) (id : ℕ) : Prop :=
  (∃ r ∈ s.replies, r.tag.handler = id ∧ 400 ≤ r.response.status ∧ r.response.status < 500) ∨
  ∃ answer ∈ s.gateway.answers, answer.handler = id ∧ answer.reply.isRejection

theorem Sound.begun_of_rejecting (h : Sound client s) (hr : Rejecting s id) :
    id < s.gateway.begun.length := by
  rcases hr with ⟨r, hr, rfl, _⟩ | ⟨answer, ha, rfl, _⟩
  case inl => exact h.replied r hr
  case inr => exact h.gateway.known answer ha

theorem Rejected.moves (hs : Sound client s) (h : Rejected s id request)
    (hp : s.gateway.submitted id = some p)
    (hreq : client.request (.applyTransaction p) = some request) (hm : Moves client s a s') :
    Rejected s' id request := by
  cases hm
  case turn ht => exact ⟨ht.deliveries ▸ h.attempts, ht.account ▸ h.barred⟩
  case idle hi => exact ⟨hi.deliveries ▸ h.attempts, hi.transactions ▸ h.barred⟩
  case deliver i order now m hm =>
    refine ⟨fun d hd he => ?_, h.barred.extends (s.account.handle_extends ..)⟩
    cases List.mem_append.mp hd
    case inl hd => exact h.attempts d hd he
    case inr hd =>
      cases List.mem_singleton.mp hd
      have he : m.tag.handler = id := he
      have hm := (hs.requests m (List.mem_of_getElem? hm)).submission (he ▸ hp)
      cases hreq.symm.trans hm
      exact decide_eq_false fun hn =>
        hn (congrArg (·.rows.length) (h.barred.handle hs.account order now))

-- A client error of the Account Service is one to a payload that it does not hold.
theorem Sound.rejected_of_delivered (h : Sound client s) {i : ℕ} {m : Gateway.Sent}
    (hm : s.requests[i]? = some m) (hp : s.gateway.submitted m.tag.handler = some p)
    {order : RowOrder Account.TransactionRow} {now : Civil}
    (h₄ : 400 ≤ (s.account.handle order now m.request).1.status)
    (h₅ : (s.account.handle order now m.request).1.status < 500) :
    Rejected (s.delivered i order now m) m.tag.handler m.request := by
  have hb := Account.barred_of_rejected h.account h₄ h₅
  have hreq := (h.requests m (List.mem_of_getElem? hm)).submission hp
  have hold : Rejected s m.tag.handler m.request := by
    refine ⟨fun d hd he => ?_, hb⟩
    by_contra hi
    have ⟨q, _, hc, ht⟩ := h.carried ⟨d, hd, Bool.eq_true_of_not_eq_false hi, he ▸ hp⟩
    cases hc.asked.symm.trans hreq
    have hok : (s.account.handle order now m.request).1.isSuccess :=
      (Account.State.handle_replays hc.submits ht hc.amount).2
    have hs := Response.status_of_isSuccess hok
    omega
  exact hold.moves h hp hreq (.deliver hm)

-- A client error that the Gateway answers has been under way before.
theorem Sound.rejecting_of_turn {b : Gateway.Action} {sent : Option Gateway.Sent}
    (h : Sound client s) (ha : s.gatewayAction a = some b) (ht : Turns client s b sent s')
    (hr : Rejecting s' id) : Rejecting s id := by
  rcases hr with ⟨r, hr, hrej⟩ | ⟨answer, hans, rfl, hrej⟩
  case inl => exact .inl ⟨r, ht.replies hr, hrej⟩
  case inr =>
    rcases Gateway.rejection_of_step h.gateway ht.step hans hrej with hans | ⟨now, r, rfl, h₄, h₅⟩
    case inl => exact .inr ⟨answer, hans, rfl, hrej⟩
    case inr =>
      cases a
      case receive i now' =>
        have ⟨reply, hrep, hsettle⟩ := Option.map_eq_some_iff.mp ha
        have ⟨hid, _, hresp⟩ := Gateway.Action.settle.inj hsettle
        cases Gateway.Outcome.response.inj hresp
        exact .inl ⟨reply, List.mem_of_getElem? hrep, hid, h₄, h₅⟩
      all_goals cases ha

-- What holds of the submissions that have been refused with a client error.
structure Refusing (client : Client) (s : State) : Prop where
  sound : Sound client s
  rejected : ∀ id p request, s.gateway.submitted id = some p →
    client.request (.applyTransaction p) = some request → Rejecting s id → Rejected s id request

theorem Refusing.moves (h : Refusing client s) (hm : Moves client s a s') : Refusing client s' := by
  refine ⟨h.sound.moves hm, fun id p request hp hreq hr => ?_⟩
  have hback : Rejecting s id → s'.gateway.submitted id = s.gateway.submitted id →
      Rejected s' id request := fun hr he =>
    (h.rejected id p request (he ▸ hp) hreq hr).moves h.sound (he ▸ hp) hreq hm
  cases hm
  case turn ha ht =>
    have hr := h.sound.rejecting_of_turn ha ht hr
    exact hback hr <| Gateway.State.submitted_of_prefix (Gateway.State.step_moves ht.step).begun
      (h.sound.begun_of_rejecting hr)
  case idle hi =>
    refine hback ?_ (by rw [hi.gateway])
    exact hr.imp (fun ⟨r, hr, hrej⟩ => ⟨r, hi.replies hr, hrej⟩) (hi.gateway ▸ ·)
  case deliver i order now m hm =>
    rcases hr with ⟨r, hr, hid, h₄, h₅⟩ | hr
    case inr => exact hback (.inr hr) rfl
    case inl =>
      cases List.mem_append.mp hr
      case inl hr => exact hback (.inl ⟨r, hr, hid, h₄, h₅⟩) rfl
      case inr hr =>
        cases List.mem_singleton.mp hr
        cases hid
        have hsub := (h.sound.requests m (List.mem_of_getElem? hm)).submission hp
        cases hreq.symm.trans hsub
        exact h.sound.rejected_of_delivered hm hp h₄ h₅

theorem Refusing.runFrom {as : List Action} (h : Refusing client s)
    (hr : (machine client).runFrom s as = some u) : Refusing client u :=
  Machine.runFrom_invariant (fun _ _ _ hi hs => hi.moves (State.step_moves hs)) h hr

theorem Refusing.init : Refusing client .init where
  sound := .init
  rejected id p request hp := by
    simp [State.init, Gateway.State.init, Gateway.State.submitted] at hp

theorem Rejected.runFrom {as : List Action} (hs : Sound client s) (h : Rejected s id request)
    (hp : s.gateway.submitted id = some p)
    (hreq : client.request (.applyTransaction p) = some request)
    (hr : (machine client).runFrom s as = some u) : Rejected u id request := by
  have hu := Machine.runFrom_invariant (m := machine client)
    (I := fun t => Sound client t ∧ t.gateway.submitted id = some p ∧ Rejected t id request)
    (fun t a t' ht hstep => ?_) ⟨hs, hp, h⟩ hr
  case refine_2 => exact hu.2.2
  have ⟨ht, hsub, hrej⟩ := ht
  have hrun : (machine client).runFrom t [a] = some t' := by simp [Machine.runFrom, hstep]
  have hi := (List.getElem?_eq_some_iff.mp (Gateway.State.submitted_eq_some.mp hsub)).1
  refine ⟨ht.step hstep, ?_, hrej.moves ht hsub hreq (State.step_moves hstep)⟩
  exact (Gateway.State.submitted_of_prefix (begun_grows hrun) hi).trans hsub

-- A submission that is answered with a client error of the Account Service has moved no money, and
-- none of its attempts does later.
theorem rejected_never_applied {as bs : List Action} {answer : Gateway.Answer}
    (h : (machine client).run as = some s) (hp : s.gateway.submitted answer.handler = some p)
    (ha : answer ∈ s.gateway.answers) (hr : answer.reply.isRejection)
    (hu : (machine client).runFrom s bs = some u) : Unmoved u answer.handler := by
  have hs : Refusing client s := Refusing.init.runFrom h
  have hsu := hs.sound.runFrom hu
  have hl : Logged u.deliveries u.account.transactions :=
    logged_of_reachable (Machine.Reachable.runFrom ⟨as, h⟩ hu)
  refine (unmoved_iff hl).mpr fun d hd he => ?_
  have hsub : u.gateway.submitted answer.handler = some p :=
    (Gateway.State.submitted_of_prefix (begun_grows hu) (hs.sound.gateway.known answer ha)).trans hp
  have hreq := (hsu.delivered d hd).submission (he ▸ hsub)
  have hrej := hs.rejected answer.handler p d.sent.request hp hreq (.inr ⟨answer, ha, rfl, hr⟩)
  exact (hrej.runFrom hs.sound hp hreq hu).attempts d hd he

-- A debit in another currency than the credit before it.
def foreignDebit : EventPayload :=
  { EventPayload.sampleDebit with
    currency := "EUR".toList
    currency_valid := ⟨"EUR".toList, .of_strip (by decide), rfl, by decide +kernel⟩ }

def rejectedRun : List Action :=
  recordingRun .sample ++ [
    .begin (.applyTransaction foreignDebit),
    .deliver 0 .inserted foreignDebit.eventTimestamp,
    .receive 0 foreignDebit.eventTimestamp
  ]

-- The handler, the status and the text of an answer that is an exception.
def shownDetail (answer : Gateway.Answer) : Option (ℕ × ℕ × Text) :=
  match answer.reply with
  | .refused status (.str text) => some (answer.handler, status, text)
  | _                           => none

theorem rejected_never_applied_foreign : ∃ s answer, (machine .default).run rejectedRun = some s ∧
    answer ∈ s.gateway.answers ∧ answer.reply.status = 409 ∧
    ∀ bs u, (machine .default).runFrom s bs = some u → Unmoved u answer.handler := by
  have hr : ((machine .default).run rejectedRun).map (fun s =>
      ((s.gateway.submitted 1).isSome, s.gateway.answers.filterMap shownDetail)) =
      some (true, [(1, 409, "account acct-123 already uses currency USD".toList)]) := by
    decide +kernel
  have ⟨s, hs, he⟩ := Option.map_eq_some_iff.mp hr
  have ⟨hsub, hd⟩ := Prod.mk.inj he
  have ⟨p, hp⟩ := Option.isSome_iff_exists.mp hsub
  have hm : (1, 409, "account acct-123 already uses currency USD".toList) ∈
      s.gateway.answers.filterMap shownDetail := by simp [hd]
  have ⟨⟨handler, reply⟩, ha, hshown⟩ := List.mem_filterMap.mp hm
  unfold shownDetail at hshown
  split at hshown
  case h_2 => cases hshown
  case h_1 status text hreply =>
    simp only [Option.some.injEq, Prod.mk.injEq] at hshown
    obtain ⟨rfl, rfl, rfl⟩ := hshown
    cases hreply
    have hn : (.str "account acct-123 already uses currency USD".toList : Json) ≠
        Gateway.conflictDetail := by
      intro hc
      exact absurd (congrArg List.length (Json.str.inj hc)) (by decide)
    exact ⟨s, _, hs, ha, rfl, fun bs u hu =>
      rejected_never_applied hs hp ha ⟨by decide, by decide, hn⟩ hu⟩

end System
