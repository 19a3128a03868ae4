import EventLedger.System.Theorems.Admission
import EventLedger.System.Theorems.History
import EventLedger.System.Theorems.Refinement
import EventLedger.System.Theorems.Rejection

-- The Gateway never takes back what it has told of a payload.
namespace Account

variable {t u : Transactions} {q : EventPayload}

-- What is admitted later has been admitted before.
theorem Admits.of_extends (h : Admits u q) (hu : Consistent u) (he : t.Extends u) : Admits t q := by
  cases h
  case taken ht => exact .of_taken ht hu he
  case fresh hf hr =>
    have hn : t.find? q.eventId = none := by
      cases ht : t.find? q.eventId
      case none => rfl
      case some => cases hf.symm.trans (he.find? ht)
    exact .fresh hn fun row hm => hr row (he.mem hm)

end Account

namespace System

open Http

open Account (Admits)
open Gateway (Client Conflicts)

variable {client : Client} {s s' : State} {a : Action} {p q : EventPayload}

-- Why no submission of a payload is answered with success.
inductive Hopeless (client : Client) (s : State) (p : EventPayload) : Prop
  | conflicting : Conflicts s.gateway.events p → Hopeless client s p
  | astray : ¬client.Carries (.applyTransaction p) → Hopeless client s p
  | invalid {e} : EventPayload.ofJson p.body = .error e → Hopeless client s p
  | barred {sent} : EventPayload.ofJson p.body = .ok sent → ¬Admits s.account.transactions sent →
    Hopeless client s p

theorem Hopeless.runFrom {as : List Action} {u : State} (h : Hopeless client s p)
    (hs : Sound client u) (hu : (machine client).runFrom s as = some u) : Hopeless client u p := by
  cases h
  case conflicting hc =>
    have ⟨record, hg, hn⟩ := hc
    exact .conflicting ⟨record, Gateway.getEvent_extends (events_extends hu) hg, hn⟩
  case astray hn  => exact .astray hn
  case invalid he => exact .invalid he
  case barred hq hn =>
    exact .barred hq fun ha => hn (ha.of_extends hs.account (transactions_extends hu))

theorem taken_of_recorded {record : EventRecord} (h : (machine client).Reachable s)
    (hg : Gateway.getEvent s.gateway.events p.eventId = .ok (some record))
    (hsame : record.SameFacts p) : ∃ q, EventPayload.ofJson p.body = .ok q ∧
      Account.Taken s.account.transactions q ∧ client.Carries (.applyTransaction p) := by
  have ⟨event, sent, hs, hc, _, hq, ht⟩ := exists_taken_of_recorded h hg hsame
  have ⟨q, hq, hqs⟩ := hs.ofJson_body hq
  exact ⟨q, hq, ht.congr hqs, carries_congr hs.accountId hc⟩

theorem Hopeless.not_recorded {record : EventRecord} (hp : Hopeless client s p)
    (h : (machine client).Reachable s)
    (hg : Gateway.getEvent s.gateway.events p.eventId = .ok (some record)) :
    ¬record.SameFacts p := by
  intro hsame
  have ⟨q, hq, ht, hc⟩ := taken_of_recorded h hg hsame
  cases hp
  case conflicting hn =>
    have ⟨record', hg', hn⟩ := hn
    cases hg.symm.trans hg'
    exact hn hsame
  case astray hn  => exact hn hc
  case invalid he => cases hq.symm.trans he
  case barred hq' hn =>
    cases hq.symm.trans hq'
    exact hn (.taken ht)

-- A client error of the Account Service is one to a hopeless payload.
theorem Sound.hopeless_of_delivered (h : Sound client s) {m : Gateway.Sent} (hm : m ∈ s.requests)
    (hp : s.gateway.submitted m.tag.handler = some p) {order : RowOrder Account.TransactionRow}
    {now : Civil} (h₄ : 400 ≤ (s.account.handle order now m.request).1.status) :
    Hopeless client s p := by
  by_cases hc : client.Carries (.applyTransaction p)
  case neg => exact .astray hc
  case pos =>
    cases hq : EventPayload.ofJson p.body
    case error => exact .invalid hq
    case ok q =>
      refine .barred hq fun ha => ?_
      have hreq := (h.requests m hm).submission hp
      have hb := Client.encode_of_request (Option.isSome_iff_exists.mpr ⟨_, hreq⟩)
      have hadm : Admissible client s p := ⟨hc, p.body, q, hb, hq, ha⟩
      have ⟨q', request, hr, ha'⟩ := hadm.carried
      cases hr.asked.symm.trans hreq
      have hl := currency_of_wire hr.body ▸ (EventPayload.ofJson_body_iff.mp hr.body).1
      have hok : (s.account.handle order now m.request).1.isSuccess :=
        Account.State.handle_admits hr.submits ha' hl hr.amount
      exact absurd (Response.status_of_isSuccess hok) (Nat.not_lt.mpr h₄)

-- What holds of the payloads that have been refused with a client error.
structure Deciding (client : Client) (s : State) : Prop where
  sound : Sound client s
  replies : ∀ r ∈ s.replies, 400 ≤ r.response.status → r.response.status < 500 →
    ∀ p, s.gateway.submitted r.tag.handler = some p → Hopeless client s p
  answers : ∀ answer ∈ s.gateway.answers, 400 ≤ answer.reply.status → answer.reply.status < 500 →
    ∀ p, s.gateway.submitted answer.handler = some p → Hopeless client s p

theorem Deciding.init : Deciding client .init where
  sound := .init
  replies := by simp [State.init]
  answers := by simp [State.init, Gateway.State.init]

theorem Deciding.step (h : Deciding client s) (hs : (machine client).step s a = some s') :
    Deciding client s' := by
  have hrun : (machine client).runFrom s [a] = some s' := by simp [Machine.runFrom, hs]
  have hsound := h.sound.step hs
  have hsub : ∀ {id p}, id < s.gateway.begun.length → s'.gateway.submitted id = some p →
      s.gateway.submitted id = some p := fun hi hp =>
    (Gateway.State.submitted_of_prefix (begun_grows hrun) hi).symm.trans hp
  have hreplies : ∀ r ∈ s.replies, 400 ≤ r.response.status → r.response.status < 500 →
      ∀ p, s'.gateway.submitted r.tag.handler = some p → Hopeless client s' p :=
    fun r hr h₄ h₅ p hp =>
      (h.replies r hr h₄ h₅ p (hsub (h.sound.replied r hr) hp)).runFrom hsound hrun
  have hanswers : ∀ answer ∈ s.gateway.answers, 400 ≤ answer.reply.status →
      answer.reply.status < 500 → ∀ p, s'.gateway.submitted answer.handler = some p →
      Hopeless client s' p :=
    fun answer ha h₄ h₅ p hp =>
      (h.answers answer ha h₄ h₅ p (hsub (h.sound.gateway.known answer ha) hp)).runFrom hsound hrun
  cases State.step_moves hs
  case idle hi =>
    exact ⟨hsound, fun r hr => hreplies r (hi.replies hr), hi.gateway ▸ hanswers⟩
  case deliver i order now m hm =>
    refine ⟨hsound, fun r hr h₄ h₅ p hp => ?_, hanswers⟩
    cases List.mem_append.mp hr
    case inl hr => exact hreplies r hr h₄ h₅ p hp
    case inr hr =>
      cases List.mem_singleton.mp hr
      have hm := List.mem_of_getElem? hm
      exact (h.sound.hopeless_of_delivered hm hp h₄).runFrom hsound hrun
  case turn ha ht =>
    refine ⟨hsound, fun r hr => hreplies r (ht.replies hr), fun answer hans h₄ h₅ p hp => ?_⟩
    cases Gateway.clientError_of_step h.sound.gateway ht.step hans h₄ h₅
    case inl hans => exact hanswers answer hans h₄ h₅ p hp
    case inr hnew =>
      cases hnew
      case inl hc =>
        obtain ⟨_, event, he, hc⟩ := hc
        cases he.symm.trans hp
        exact .conflicting hc
      case inr hr =>
        obtain ⟨now, r, hb, h₄, h₅⟩ := hr
        cases a
        case receive i now' =>
          obtain ⟨reply, hrep, hset⟩ := Option.map_eq_some_iff.mp ha
          obtain ⟨hid, _, hresp⟩ := Gateway.Action.settle.inj (hset.trans hb)
          cases Gateway.Outcome.response.inj hresp
          exact hreplies reply (List.mem_of_getElem? hrep) h₄ h₅ p (hid ▸ hp)
        all_goals cases hb ▸ ha

theorem deciding_of_reachable (h : (machine client).Reachable s) : Deciding client s :=
  h.invariant .init fun _ _ _ hi hs => hi.step hs

-- No two answers to submissions of the same facts contradict each other: where one is a success,
-- before or after, none is a client error.
theorem verdicts_agree {success refusal : Gateway.Answer} (h : (machine client).Reachable s)
    (hs : success ∈ s.gateway.answers) (hr : refusal ∈ s.gateway.answers)
    (hp : s.gateway.submitted success.handler = some p)
    (hq : s.gateway.submitted refusal.handler = some q) (hsame : p.SameFacts q)
    (hok : success.reply.status < 400) :
    refusal.reply.status < 400 ∨ 500 ≤ refusal.reply.status := by
  by_contra hn
  have ⟨_, record, _, hg, hsuccess⟩ := (Vouched.of_reachable h).faithful success hs p hp hok
  have hh := (deciding_of_reachable h).answers refusal hr (by omega) (by omega) q hq
  exact hh.not_recorded h (hsame.eventId ▸ hg) (hsuccess.trans hsame)

def Action.begins : Action → Option Gateway.Operation
  | .begin operation => some operation
  | _                => none

theorem begun_of_runFrom {as : List Action} {u : State}
    (h : (machine client).runFrom s as = some u) :
    u.gateway.begun = s.gateway.begun ++ as.filterMap Action.begins := by
  induction as generalizing s
  case nil =>
    cases h
    simp
  case cons a as hi =>
    have ⟨t, ht, hu⟩ := Machine.runFrom_cons h
    rw [hi hu]
    cases a
    case begin operation => simp [begun_begin ht, Action.begins]
    all_goals
      cases begun_cases ht
      case inl hb => rw [hb, List.filterMap_cons_none rfl]
      case inr hb => cases hb.choose_spec.1

-- A submission that has been answered with an error is repeated.
def repeatedRun : List Action :=
  lostReply ++ [
    .begin (.applyTransaction .sample),
    .deliver 2 .inserted EventPayload.sample.eventTimestamp,
    .receive 1 EventPayload.sample.eventTimestamp
  ]

theorem verdicts_agree_repeated : ∃ s success refusal,
    (machine .default).run repeatedRun = some s ∧ success ∈ s.gateway.answers ∧
    refusal ∈ s.gateway.answers ∧ success.reply.status = 201 ∧
    (refusal.reply.status < 400 ∨ 500 ≤ refusal.reply.status) := by
  have hr : ((machine .default).run repeatedRun).map (fun s =>
      s.gateway.answers.map fun a => (a.handler, a.reply.status)) = some [(0, 503), (1, 201)] := by
    decide +kernel
  have ⟨s, hs, he⟩ := Option.map_eq_some_iff.mp hr
  have hb := begun_of_runFrom hs
  have hsub : ∀ id < 2, s.gateway.submitted id = some .sample := by
    intro id hi
    apply Gateway.State.submitted_eq_some.mpr
    rw [hb]
    interval_cases id <;> rfl
  have h₀ : (0, 503) ∈ s.gateway.answers.map fun a => (a.handler, a.reply.status) := by simp [he]
  have h₁ : (1, 201) ∈ s.gateway.answers.map fun a => (a.handler, a.reply.status) := by simp [he]
  have ⟨refusal, hm₀, he₀⟩ := List.mem_map.mp h₀
  have ⟨success, hm₁, he₁⟩ := List.mem_map.mp h₁
  have ⟨hi₀, hs₀⟩ := Prod.mk.inj he₀
  have ⟨hi₁, hs₁⟩ := Prod.mk.inj he₁
  have hp := hsub success.handler (hi₁ ▸ by decide)
  have hq := hsub refusal.handler (hi₀ ▸ by decide)
  exact ⟨s, success, refusal, hs, hm₁, hm₀, hs₁,
    verdicts_agree ⟨_, hs⟩ hm₁ hm₀ hp hq (.refl _) (hs₁ ▸ by decide)⟩

-- What the answer of success to a payload stands for: its record is what every read of the event
-- shows and what every repetition of the payload is answered with, and the Account Service has
-- moved the money.
structure Kept (client : Client) (s : State) (p : EventPayload) (record : EventRecord) : Prop where
  sameFacts : record.SameFacts p
  applied : ∃ g ∈ s.gateway.events.rows, Recorded g record ∧ ∃ row, Held s g row
  found : ∀ order request, Targets request (.getEvent p.eventId) →
    s.gateway.arrive order request = .answered (found record)
  listed : ∀ order request, Targets request .listEvents →
    Url.queryParam request.query "account" = some p.accountId → ∃ records,
    s.gateway.arrive order request = .answered (listing records) ∧ record ∈ records ∧
    (records.map (·.eventId)).Nodup
  replayed : ∀ q, record.SameFacts q →
    Gateway.AnswersAtOnce client s.gateway q (.event 200 record)
  conflicting : ∀ q, q.eventId = p.eventId → ¬record.SameFacts q →
    Gateway.AnswersAtOnce client s.gateway q (.refused 409 Gateway.conflictDetail)

theorem Sound.kept {record : EventRecord} (h : Sound client s)
    (hg : Gateway.getEvent s.gateway.events p.eventId = .ok (some record))
    (hs : record.SameFacts p) : Kept client s p record := by
  have ⟨g, hf, hr⟩ := Gateway.getEvent_eq_some hg
  have ⟨hm, hid⟩ := Table.find?_eq_some.mp hf
  have ⟨record', hrec⟩ := h.readable hm
  cases hr.symm.trans hrec.read
  constructor
  case sameFacts => exact hs
  case applied   => exact ⟨g, hm, hrec, h.held hm⟩
  case found =>
    intro order request ht
    have ⟨record', hrec', hfound⟩ := (h.served order).found g hm
    cases hrec.read.symm.trans hrec'.read
    exact hfound request (hid ▸ ht)
  case listed =>
    intro order request ht hq
    have ⟨records, hp, hrecs, hl⟩ := (h.served order).listed p.accountId p.accountId_valid.1
    have ha : g.accountId = p.accountId := hrec.accountId.symm.trans hs.accountId
    have hmem := hp.mem_iff.mpr (List.mem_map_of_mem (Gateway.mem_accountRows.mpr ⟨hm, ha⟩))
    have ⟨record', hm', he⟩ := List.mem_map.mp hmem
    have ⟨g', hg', hr'⟩ := hrecs record' hm'
    have hgg : g' = g := List.inj_on_of_nodup_map s.gateway.events.nodup
      (Gateway.mem_accountRows.mp hg').1 hm (hr'.eventId.symm.trans he)
    subst hgg
    cases hrec.read.symm.trans hr'.read
    refine ⟨records, hl request ht hq, hm', hp.nodup_iff.mpr ?_⟩
    exact s.gateway.events.nodup.sublist (List.filter_sublist.map _)
  case replayed =>
    intro q hq
    exact Gateway.answersAtOnce_same (by rwa [← hq.eventId, hs.eventId]) hq
  case conflicting => exact fun q hq hn => Gateway.answersAtOnce_different (hq ▸ hg) hn

-- From an answer of success on, whatever happens.
theorem acknowledged_kept {as bs : List Action} {u : State} {answer : Gateway.Answer}
    (h : (machine client).run as = some s) (ha : answer ∈ s.gateway.answers)
    (hp : s.gateway.submitted answer.handler = some p) (hok : answer.reply.status < 400)
    (hu : (machine client).runFrom s bs = some u) : ∃ status record,
    answer.reply = .event status record ∧ Kept client u p record := by
  have hr : (machine client).Reachable s := ⟨as, h⟩
  have ⟨status, record, hrep, hg, hs⟩ := (Vouched.of_reachable hr).faithful answer ha p hp hok
  have hsound := (Sound.of_reachable hr).runFrom hu
  exact ⟨status, record, hrep, hsound.kept (Gateway.getEvent_extends (events_extends hu) hg) hs⟩

theorem acknowledged_kept_sample : ∃ s answer,
    (machine .default).run (recordingRun .sample) = some s ∧ answer ∈ s.gateway.answers ∧
    ∀ bs u, (machine .default).runFrom s bs = some u → ∃ status record,
      answer.reply = .event status record ∧ Kept .default u .sample record := by
  have hr : ((machine .default).run (recordingRun .sample)).map (fun s =>
      s.gateway.answers.map fun a => (a.handler, a.reply.status)) = some [(0, 201)] := by
    decide +kernel
  have ⟨s, hs, he⟩ := Option.map_eq_some_iff.mp hr
  have ⟨answer, ha, he⟩ := List.map_eq_singleton_iff.mp he
  have ⟨hi, hst⟩ := Prod.mk.inj he
  have hm : answer ∈ s.gateway.answers := by simp [ha]
  have hsub : s.gateway.submitted answer.handler = some .sample := by
    apply Gateway.State.submitted_eq_some.mpr
    rw [hi, begun_of_runFrom hs]
    rfl
  exact ⟨s, answer, hs, hm, fun _ _ hu => acknowledged_kept hs hm hsub (hst ▸ by decide) hu⟩

end System
