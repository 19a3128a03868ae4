import EventLedger.Gateway.Theorems.Attempts
import EventLedger.System.Theorems.Delivery

namespace System

open Http

open Gateway (Client Fate Sent Tag)
open Account (Transactions TransactionRow)

variable {client : Client} {s s' : State} {a : Action} {b : Gateway.Action} {sent : Option Sent}
variable {ds : List Delivery} {t : Transactions} {id : ℕ} {m : Sent}

-- The table after the Account Service has handled a delivery again.
def Delivery.replay (t : Transactions) (d : Delivery) : Transactions :=
  ({ Account.State.init with transactions := t }
    |>.handle d.order d.now d.sent.request).2.transactions

def replay (ds : List Delivery) : Transactions :=
  ds.foldl Delivery.replay .empty

-- The log of the deliveries that have led to a table.
inductive Logged : List Delivery → Transactions → Prop
  | nil : Logged [] .empty
  | snoc {ds t d} : Logged ds t →
    d.inserted = decide ((d.replay t).rows.length ≠ t.rows.length) → Logged (ds ++ [d]) (d.replay t)

theorem Delivery.replay_of_not_inserted {d : Delivery}
    (h : d.inserted = decide ((d.replay t).rows.length ≠ t.rows.length))
    (hi : d.inserted = false) : d.replay t = t := by
  rw [hi, eq_comm, decide_eq_false_iff_not, not_not] at h
  have he : t.Extends (d.replay t) :=
    Account.State.handle_extends { Account.State.init with transactions := t } ..
  exact (Table.ext (List.IsPrefix.eq_of_length he h.symm)).symm

-- Deliveries that have inserted nothing can be left out.
theorem Logged.replay_filter (h : Logged ds t) (p : Delivery → Bool)
    (hp : ∀ d ∈ ds, p d = false → d.inserted = false) : replay (ds.filter p) = t := by
  induction h
  case nil => rfl
  case snoc ds t d _ hd hi =>
    have hi := hi fun d hm => hp d (List.mem_append_left _ hm)
    rw [List.filter_append, replay, List.foldl_append]
    cases hpd : p d
    case true =>
      have hf : [d].filter p = [d] := by simp [hpd]
      rw [hf]
      exact congrArg (Delivery.replay · d) hi
    case false =>
      have hf : [d].filter p = [] := by simp [hpd]
      rw [hf, Delivery.replay_of_not_inserted hd (hp d (by simp) hpd)]
      exact hi

theorem Logged.moves (h : Logged s.deliveries s.account.transactions)
    (hm : Moves client s a s') : Logged s'.deliveries s'.account.transactions := by
  cases hm
  case turn ht => exact ht.deliveries ▸ ht.account ▸ h
  case idle hi => exact hi.deliveries ▸ hi.transactions ▸ h
  case deliver i order now sent hr =>
    have he : Delivery.replay s.account.transactions {
        sent, order, now
        inserted := (s.account.handle order now sent.request).2.transactions.rows.length ≠
          s.account.transactions.rows.length } =
        (s.account.handle order now sent.request).2.transactions :=
      Account.State.handle_congr rfl
    have hl := h.snoc (d := {
        sent, order, now
        inserted := (s.account.handle order now sent.request).2.transactions.rows.length ≠
          s.account.transactions.rows.length }) (by rw [he])
    rw [he] at hl
    exact hl

theorem logged_of_reachable (h : (machine client).Reachable s) :
    Logged s.deliveries s.account.transactions :=
  h.invariant (I := fun s => Logged s.deliveries s.account.transactions) .nil
    fun _ _ _ hi hs => hi.moves (State.step_moves hs)

-- A submission has been answered with 503.
def Refused (s : State) (id : ℕ) : Prop :=
  (s.gateway.submitted id).isSome ∧ ∃ answer ∈ s.gateway.answers,
    answer.handler = id ∧ answer.reply.status = 503

-- No attempt of a submission has inserted a row, so that the table, and with it every balance, is
-- what the other deliveries make of it.
structure Unmoved (s : State) (id : ℕ) : Prop where
  attempts : ∀ d ∈ s.deliveries, d.sent.tag.handler = id → d.inserted = false
  table : replay (s.deliveries.filter (·.sent.tag.handler ≠ id)) = s.account.transactions

theorem unmoved_iff (h : Logged s.deliveries s.account.transactions) : Unmoved s id ↔
    ∀ d ∈ s.deliveries, d.sent.tag.handler = id → d.inserted = false where
  mp hu := hu.attempts
  mpr hi := ⟨hi, h.replay_filter _ fun d hd hp => hi d hd (by simpa using hp)⟩

-- The answer 503 is right about the money.
def Honest (s : State) : Prop :=
  ∀ id, Refused s id → Unmoved s id

-- The event that a request submits has no row yet.
def State.lacksRow (s : State) (m : Sent) : Bool :=
  (s.gateway.submitted m.tag.handler).any fun event =>
    (s.account.transactions.find? event.eventId).isNone

-- The attempt whose request is handled by a step while its event has no row.
def State.handling (s : State) : Action → Option Tag
  | .deliver i _ _ => (s.requests[i]?.filter s.lacksRow).map (·.tag)
  | _              => none

-- The attempt that a step ends in failure.
def State.failing (s : State) (a : Action) : Option Tag :=
  (s.gatewayAction a).bind s.gateway.failing

-- The attempts whose requests have been handled while their events had no rows, and those that have
-- ended in failure.
structure Schedule where
  handled : List Tag
  failed : List Tag

def Schedule.init : Schedule where
  handled := []
  failed := []

def Schedule.note (s : State) (a : Action) (w : Schedule) : Schedule where
  handled := w.handled ++ (s.handling a).toList
  failed := w.failed ++ (s.failing a).toList

-- The two services with their schedule.
def scheduled (client : Client) : Machine (State × Schedule) Action :=
  (machine client).track .init Schedule.note

-- No attempt fails whose request is handled while its event has no row, whichever comes first.
structure Prompt (x : State × Schedule) (a : Action) : Prop where
  handles : ∀ tag, x.1.handling a = some tag → tag ∉ x.2.failed
  fails : ∀ tag, x.1.failing a = some tag → tag ∉ x.2.handled

-- What holds of the attempts along a schedule.
structure Scheduled (client : Client) (x : State × Schedule) : Prop where
  sound : Sound client x.1
  numbered : Numbered client x.1
  logged : Logged x.1.deliveries x.1.account.transactions
  inserted : ∀ d ∈ x.1.deliveries, d.inserted → d.sent.tag ∈ x.2.handled
  fates : ∀ tag ∈ x.1.tags, Fate x.1.gateway x.2.failed tag
  apart : ∀ tag ∈ x.2.handled, tag ∉ x.2.failed

-- A request that inserts a row is handled while its event has none.
theorem Sound.handling_of_inserts (h : Sound client s) {i : ℕ} (hm : s.requests[i]? = some m)
    {order : RowOrder TransactionRow} {now : Civil}
    (hi : (s.account.handle order now m.request).2.transactions.rows.length ≠
      s.account.transactions.rows.length) :
    s.handling (.deliver i order now) = some m.tag := by
  rcases s.account.handle_rows_cases order now m.request with he | ⟨q, hq, hf, _⟩
  case inl => exact absurd (congrArg (·.rows.length) he) hi
  case inr =>
    have ⟨event, hp, hj⟩ := (h.requests m (List.mem_of_getElem? hm)).submits hq
    obtain ⟨_, _, _, _, rfl⟩ := EventPayload.ofJson_body_iff.mp hj
    have hf : s.account.transactions.find? event.eventId = none := hf
    simp [State.handling, State.lacksRow, hm, hp, hf]

theorem State.failing_of_handling {tag : Tag} (h : s.handling a = some tag) :
    s.failing a = none := by
  cases a
  case deliver => rfl
  all_goals cases h

namespace Scheduled

variable {x : State × Schedule}

theorem init : Scheduled client (.init, .init) where
  sound := .init
  numbered := .init
  logged := .nil
  inserted := nofun
  fates := nofun
  apart := nofun

theorem apart_note (h : Scheduled client x) (hp : Prompt x a) :
    ∀ tag ∈ (x.2.note x.1 a).handled, tag ∉ (x.2.note x.1 a).failed := by
  intro tag hm hf
  rcases List.mem_append.mp hm with hm | hm <;> rcases List.mem_append.mp hf with hf | hf
  case inl.inl => exact h.apart tag hm hf
  case inl.inr => exact hp.fails tag (Option.mem_toList.mp hf) hm
  case inr.inl => exact hp.handles tag (Option.mem_toList.mp hm) hf
  case inr.inr =>
    rw [State.failing_of_handling (Option.mem_toList.mp hm)] at hf
    cases hf

theorem inserted_moves (h : Scheduled client x) (hm : Moves client x.1 a s') :
    ∀ d ∈ s'.deliveries, d.inserted → d.sent.tag ∈ (x.2.note x.1 a).handled := by
  intro d hd hi
  cases hm
  case turn ht => exact List.mem_append_left _ (h.inserted d (ht.deliveries ▸ hd) hi)
  case idle hs => exact List.mem_append_left _ (h.inserted d (hs.deliveries ▸ hd) hi)
  case deliver hr =>
    rcases List.mem_append.mp hd with hd | hd
    case inl => exact List.mem_append_left _ (h.inserted d hd hi)
    case inr =>
      cases List.mem_singleton.mp hd
      have hh := h.sound.handling_of_inserts hr (of_decide_eq_true hi)
      exact List.mem_append_right _ (Option.mem_toList.mpr hh)

theorem fates_moves (h : Scheduled client x) (hm : Moves client x.1 a s') :
    ∀ tag ∈ s'.tags, Fate s'.gateway (x.2.note x.1 a).failed tag := by
  intro tag ht
  cases hm
  case deliver i order now m hr =>
    have ht := (Numbered.tags_delivered hr order now).mem_iff.mp ht
    have hf : (x.2.note x.1 (.deliver i order now)).failed = x.2.failed := List.append_nil _
    exact hf ▸ h.fates tag ht
  case idle hn hs =>
    have hf : (x.2.note x.1 a).failed = x.2.failed := by
      simp [Schedule.note, State.failing, hn]
    have ht : tag ∈ x.1.tags := by
      rw [State.tags, hs.deliveries, List.mem_append] at ht
      exact List.mem_append.mpr (ht.imp_left fun ht => List.map_subset _ hs.requests ht)
    exact hf ▸ hs.gateway ▸ h.fates tag ht
  case turn b sent ha hs =>
    have hf : (x.2.note x.1 a).failed = x.2.failed ++ (x.1.gateway.failing b).toList := by
      simp [Schedule.note, State.failing, ha]
    rw [hf]
    have hold : ∀ tag ∈ x.1.tags,
        Fate s'.gateway (x.2.failed ++ (x.1.gateway.failing b).toList) tag := fun tag ht =>
      (h.fates tag ht).step h.numbered.serves (h.numbered.numbers tag ht).begun hs.step
    rw [State.tags, hs.requests, hs.deliveries, List.map_append, List.mem_append,
      List.mem_append] at ht
    rcases ht with (ht | ht) | ht
    case inl.inl => exact hold tag (List.mem_append_left _ ht)
    case inr     => exact hold tag (List.mem_append_right _ ht)
    case inl.inr =>
      obtain ⟨m, hm, rfl⟩ := List.mem_map.mp ht
      cases Option.mem_toList.mp hm
      exact .of_sent hs.step

theorem step {y : State × Schedule} (h : Scheduled client x) (hp : Prompt x a)
    (hs : (scheduled client).step x a = some y) : Scheduled client y := by
  obtain ⟨s', ht, rfl⟩ := Option.map_eq_some_iff.mp hs
  have hm := State.step_moves ht
  exact ⟨h.sound.moves hm, h.numbered.step ht, h.logged.moves hm, h.inserted_moves hm,
    h.fates_moves hm, h.apart_note hp⟩

-- Every attempt of a submission that has been answered 503 has failed.
theorem honest (h : Scheduled client x) : Honest x.1 := by
  intro id hr
  obtain ⟨_, answer, ha, hid, h503⟩ := hr
  refine (unmoved_iff h.logged).mpr fun d hd hdid => ?_
  by_contra hi
  have hi : d.inserted := by simpa using hi
  have hm := h.inserted d hd hi
  have hans : answer.handler = d.sent.tag.handler := hid.trans hdid.symm
  cases h.fates d.sent.tag (List.mem_append_right _ (List.mem_map_of_mem hd))
  case awaited hh    => exact h.numbered.serves.known_of_running hh answer ha hans
  case failed hf     => exact h.apart d.sent.tag hm hf
  case gone hspares  => exact hspares answer ha hans h503

end Scheduled

-- In a run whose steps are all prompt, every answer 503 is right.
theorem always_honest (client : Client) {as : List Action}
    (hp : (scheduled client).Meets Prompt (.init, .init) as) :
    (machine client).Always Honest .init as :=
  Machine.track_always.mp <| Machine.always_of_meets
    (I := Scheduled client) (fun _ _ _ hi hc hs => hi.step hc hs) (fun _ hi => hi.honest)
    .init hp

-- What a schedule has noted in the end tells whether its steps have been prompt.
theorem meets_prompt {as : List Action} {x y : State × Schedule}
    (h : (scheduled client).runFrom x as = some y) (ha : ∀ tag ∈ y.2.handled, tag ∉ y.2.failed) :
    (scheduled client).Meets Prompt x as ∧ x.2.handled ⊆ y.2.handled ∧
      x.2.failed ⊆ y.2.failed := by
  induction as generalizing x
  case nil =>
    cases h
    exact ⟨trivial, List.Subset.refl _, List.Subset.refl _⟩
  case cons a as hi =>
    have ⟨z, hz, hy⟩ := Machine.runFrom_cons h
    have ⟨hm, hh, hf⟩ := hi hy
    obtain ⟨t, ht, rfl⟩ := Option.map_eq_some_iff.mp hz
    have ⟨hh, hhn⟩ := List.append_subset.mp hh
    have ⟨hf, hfn⟩ := List.append_subset.mp hf
    refine ⟨⟨⟨fun tag he hmem => ?_, fun tag he hmem => ?_⟩, fun z' hz' => ?_⟩, hh, hf⟩
    case refine_1 => exact ha tag (hhn (Option.mem_toList.mpr he)) (hf hmem)
    case refine_2 => exact ha tag (hh hmem) (hfn (Option.mem_toList.mpr he))
    case refine_3 =>
      cases hz.symm.trans hz'
      exact hm

-- Three attempts at a submission time out.
def timeouts (now : Civil) : List Action :=
  [.fail 0 now .readTimeout, .wake 0, .fail 0 now .readTimeout, .wake 0, .fail 0 now .readTimeout]

-- No request arrives.
def lostRequests : List Action :=
  .begin (.applyTransaction .sample) :: timeouts EventPayload.sample.eventTimestamp

-- The submission is repeated and accepted before one of the first requests arrives.
def repeatedRequests : List Action :=
  lostRequests ++ [
    .begin (.applyTransaction .sample),
    .deliver 3 .inserted EventPayload.sample.eventTimestamp,
    .receive 0 EventPayload.sample.eventTimestamp,
    .deliver 0 .inserted EventPayload.sample.eventTimestamp
  ]

theorem always_honest_repeatedRequests :
    (machine .default).Always Honest .init repeatedRequests := by
  have hr : ((scheduled .default).run repeatedRequests).map (fun x => (x.2.handled, x.2.failed)) =
      some ([⟨1, 1⟩], [⟨0, 1⟩, ⟨0, 2⟩, ⟨0, 3⟩]) := by decide +kernel
  obtain ⟨x, hx, he⟩ := Option.map_eq_some_iff.mp hr
  obtain ⟨hh, hf⟩ := Prod.mk.inj he
  refine always_honest .default (meets_prompt hx ?_).1
  rw [hh, hf]
  decide

-- The first request arrives, its reply does not.
def lostReply : List Action :=
  .begin (.applyTransaction .sample) :: .deliver 0 .inserted EventPayload.sample.eventTimestamp ::
    timeouts EventPayload.sample.eventTimestamp

theorem not_honest_lostReply : ∃ s, (machine .default).run lostReply = some s ∧ ¬Honest s := by
  have hr : ((machine .default).run lostReply).map (fun s => ((s.gateway.submitted 0).isSome,
      s.gateway.answers.map fun a => (a.handler, a.reply.status),
      s.deliveries.map fun d => (d.sent.tag.handler, d.inserted))) =
      some (true, [(0, 503)], [(0, true)]) := by decide +kernel
  obtain ⟨s, hs, he⟩ := Option.map_eq_some_iff.mp hr
  simp only [Prod.mk.injEq, List.map_eq_singleton_iff] at he
  obtain ⟨hsub, ⟨answer, ha, hi, h503⟩, ⟨d, hd, hdi, hins⟩⟩ := he
  refine ⟨s, hs, fun hp => ?_⟩
  have hu := hp 0 ⟨hsub, answer, by simp [ha], hi, h503⟩
  simp [hu.attempts d (by simp [hd]) hdi] at hins

end System
