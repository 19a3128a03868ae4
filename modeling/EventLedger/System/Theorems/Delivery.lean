import EventLedger.Gateway.Theorems.Serving
import EventLedger.System.Theorems.Invariant

namespace System

open Gateway (Client Drives Sent Serves Tag)
open Account (TransactionRow)

variable {client : Client} {s s' : State} {a : Action} {sent : Option Sent} {m : Sent} {i : ℕ}

-- What a step does to the queues when it delivers no request.
structure Passes (client : Client) (s s' : State) (sent : Option Sent) : Prop where
  gateway : s'.gateway = s.gateway ∧ sent = none ∨ ∃ b, Drives client s.gateway b s'.gateway sent
  requests : ∃ kept, kept.Sublist s.requests ∧ s'.requests = kept ++ sent.toList
  replies : s'.replies.Sublist s.replies
  deliveries : s'.deliveries = s.deliveries

theorem Passes.of_gatewayStep {b : Gateway.Action}
    (h : (s.gateway.step client b).map s.gatewayStep = some s') :
    ∃ sent, Passes client s s' sent := by
  obtain ⟨⟨g, sent⟩, hr, rfl⟩ := Option.map_eq_some_iff.mp h
  exact ⟨sent, .inr ⟨b, Gateway.State.step_drives hr⟩, ⟨_, List.Sublist.refl _, rfl⟩,
    List.Sublist.refl _, rfl⟩

theorem State.step_passes (h : (machine client).step s a = some s') :
    (∃ i order now m, s.requests[i]? = some m ∧ s' = s.delivered i order now m) ∨
    ∃ sent, Passes client s s' sent := by
  have hlost : ∀ {requests replies}, requests.Sublist s.requests → replies.Sublist s.replies →
      Passes client s { s with requests, replies } none := fun hreq hrep =>
    ⟨.inl ⟨rfl, rfl⟩, ⟨_, hreq, (List.append_nil _).symm⟩, hrep, rfl⟩
  cases a
  case deliver i order now =>
    have ⟨m, hm, he⟩ := Option.map_eq_some_iff.mp h
    exact .inl ⟨i, order, now, m, hm, he.symm⟩
  case begin operation => exact .inr (Passes.of_gatewayStep (b := .begin operation) h)
  case fail => exact .inr (Passes.of_gatewayStep h)
  case wake => exact .inr (Passes.of_gatewayStep h)
  case wait => exact .inr (Passes.of_gatewayStep h)
  case restartGateway => exact .inr (Passes.of_gatewayStep (b := .restart) h)
  case receive i now =>
    have ⟨reply, _, h⟩ := Option.bind_eq_some_iff.mp h
    split at h
    case isFalse => cases h
    case isTrue =>
      obtain ⟨g, hg, rfl⟩ := Option.map_eq_some_iff.mp h
      have hd : s.gateway.step client (.settle reply.tag.handler now (.response reply.response)) =
          some (g, none) := congrArg (Option.map (·, none)) hg
      exact .inr ⟨none, .inr ⟨_, Gateway.State.step_drives hd⟩,
        ⟨_, List.Sublist.refl _, (List.append_nil _).symm⟩, List.eraseIdx_sublist .., rfl⟩
  case loseRequest i =>
    exact .inr ⟨none, Option.some.inj h ▸ hlost (List.eraseIdx_sublist ..) (List.Sublist.refl _)⟩
  case loseReply i =>
    exact .inr ⟨none, Option.some.inj h ▸ hlost (List.Sublist.refl _) (List.eraseIdx_sublist ..)⟩
  case restartAccount =>
    have h := Option.some.inj h
    exact .inr ⟨none, h ▸ ⟨.inl ⟨rfl, rfl⟩, ⟨_, List.Sublist.refl _, (List.append_nil _).symm⟩,
      List.Sublist.refl _, rfl⟩⟩

-- The attempts whose requests are under way or have been handled.
def State.tags (s : State) : List Tag :=
  s.requests.map (·.tag) ++ s.deliveries.map (·.sent.tag)

-- What holds of the number of an attempt, as long as its handler runs.
structure Numbers (client : Client) (g : Gateway.State) (tag : Tag) : Prop where
  begun : tag.handler < g.begun.length
  pos : 1 ≤ tag.attempt
  le : tag.attempt ≤ client.maxAttempts
  reached : ∀ handler, g.handlers tag.handler = some handler → tag.attempt ≤ handler.attempt

theorem Numbers.onward {g g' : Gateway.State} {tag : Tag} (h : Numbers client g tag)
    (hb : g.begun <+: g'.begun) (ha : Gateway.Advances g g' sent) : Numbers client g' tag where
  begun := h.begun.trans_le hb.length_le
  pos := h.pos
  le := h.le
  reached handler' hh := by
    have ⟨handler, hs, hl⟩ := ha.onward tag.handler h.begun handler' hh
    exact (h.reached handler hs).trans hl

-- What has been sent before is not sent again.
theorem Numbers.new {g g' : Gateway.State} (h : Numbers client g m.tag)
    (ha : Gateway.Advances g g' (some m)) : False := by
  have ⟨handler, hs, hl⟩ := ha.next m rfl h.begun
  exact absurd (h.reached handler hs) (Nat.not_le.mpr hl)

theorem Numbers.of_sent {g g' : Gateway.State} (h : Serves client g')
    (ha : Gateway.Advances g g' (some m)) : Numbers client g' m.tag := by
  have ⟨operation, hh⟩ := ha.latest m rfl
  have ⟨hb, h₁, hm⟩ := h.running _ _ hh
  exact ⟨hb, h₁, hm, fun handler hs => by cases hh.symm.trans hs; exact le_rfl⟩

-- No attempt has two requests, and every reply is one to a request that has been handled.
structure Numbered (client : Client) (s : State) : Prop where
  serves : Serves client s.gateway
  distinct : s.tags.Nodup
  numbers : ∀ tag ∈ s.tags, Numbers client s.gateway tag
  replied : (s.replies.map (·.tag)).Nodup
  handled : ∀ r ∈ s.replies, r.tag ∈ s.deliveries.map (·.sent.tag)

namespace Numbered

theorem init : Numbered client .init where
  serves := .init
  distinct := .nil
  numbers := nofun
  replied := .nil
  handled := nofun

theorem tags_delivered (hm : s.requests[i]? = some m) (order : RowOrder TransactionRow)
    (now : Civil) : (s.delivered i order now m).tags.Perm s.tags := by
  obtain ⟨hi, rfl⟩ := List.getElem?_eq_some_iff.mp hm
  have hp := (List.getElem_cons_eraseIdx_perm hi).map (·.tag)
  have hl : (s.delivered i order now s.requests[i]).tags =
      (s.requests.eraseIdx i).map (·.tag) ++
        (s.deliveries.map (·.sent.tag) ++ [s.requests[i].tag]) := by
    simp [State.tags, State.delivered]
  rw [hl, State.tags]
  refine List.Perm.trans ?_ (hp.append_right _)
  rw [List.map_cons, List.cons_append, ← List.append_assoc]
  exact List.perm_append_singleton ..

theorem deliver (h : Numbered client s) (hm : s.requests[i]? = some m)
    (order : RowOrder TransactionRow) (now : Civil) :
    Numbered client (s.delivered i order now m) := by
  have hp := tags_delivered hm order now
  have hmem : m.tag ∈ s.requests.map (·.tag) :=
    List.mem_map_of_mem (List.mem_of_getElem? hm)
  have hdis := (List.nodup_append.mp h.distinct).2.2
  have hrep : (s.delivered i order now m).replies.map (·.tag) =
      s.replies.map (·.tag) ++ [m.tag] := by simp [State.delivered]
  have hdel : (s.delivered i order now m).deliveries.map (·.sent.tag) =
      s.deliveries.map (·.sent.tag) ++ [m.tag] := by simp [State.delivered]
  constructor
  case serves   => exact h.serves
  case distinct => exact hp.nodup_iff.mpr h.distinct
  case numbers  => exact fun tag ht => h.numbers tag (hp.mem_iff.mp ht)
  case replied  =>
    rw [hrep, List.nodup_append]
    refine ⟨h.replied, List.nodup_singleton _, fun tag ht tag' ht' he => ?_⟩
    obtain ⟨r, hr, rfl⟩ := List.mem_map.mp ht
    cases List.mem_singleton.mp ht'
    exact hdis m.tag hmem m.tag (he ▸ h.handled r hr) rfl
  case handled =>
    intro r hr
    rw [hdel]
    cases List.mem_append.mp hr
    case inl hr => exact List.mem_append_left _ (h.handled r hr)
    case inr hr => exact List.mem_append_right _ (by simp [List.mem_singleton.mp hr])

-- A step of the Gateway sends at most one request, with a new number.
theorem drives (h : Numbered client s) {b : Gateway.Action} {kept : List Sent}
    (hd : Drives client s.gateway b s'.gateway sent) (hk : kept.Sublist s.requests)
    (hr : s'.requests = kept ++ sent.toList) (hrep : s'.replies.Sublist s.replies)
    (hdel : s'.deliveries = s.deliveries) : Numbered client s' := by
  have hserves := h.serves.drives hd
  have hsub : (kept.map (·.tag) ++ s.deliveries.map (·.sent.tag)).Sublist s.tags :=
    (hk.map _).append (List.Sublist.refl _)
  have hold : ∀ tag ∈ s.tags, Numbers client s'.gateway tag := fun tag ht =>
    (h.numbers tag ht).onward hd.begun hd.advances
  have htags : s'.tags.Perm
      (sent.toList.map (·.tag) ++ (kept.map (·.tag) ++ s.deliveries.map (·.sent.tag))) := by
    rw [State.tags, hr, hdel, List.map_append, ← List.append_assoc]
    exact List.perm_append_comm.append_right _
  refine ⟨hserves, htags.nodup_iff.mpr ?_, fun tag ht => ?_, h.replied.sublist (hrep.map _),
    hdel ▸ fun r hr => h.handled r (hrep.subset hr)⟩
  case refine_1 =>
    cases sent
    case none   => exact h.distinct.sublist hsub
    case some m =>
      refine List.nodup_cons.mpr ⟨fun hm => ?_, h.distinct.sublist hsub⟩
      exact (h.numbers m.tag (hsub.subset hm)).new hd.advances
  case refine_2 =>
    cases List.mem_append.mp (htags.mem_iff.mp ht)
    case inl ht =>
      obtain ⟨m, hm, rfl⟩ := List.mem_map.mp ht
      cases Option.mem_toList.mp hm
      exact .of_sent hserves hd.advances
    case inr ht => exact hold tag (hsub.subset ht)

theorem passes (h : Numbered client s) (hp : Passes client s s' sent) : Numbered client s' := by
  have ⟨kept, hk, hr⟩ := hp.requests
  rcases hp.gateway with ⟨hg, rfl⟩ | ⟨b, hd⟩
  case inr => exact h.drives hd hk hr hp.replies hp.deliveries
  case inl =>
    have hsub : s'.tags.Sublist s.tags := by
      rw [State.tags, State.tags, hr, hp.deliveries, Option.toList_none, List.append_nil]
      exact (hk.map _).append (List.Sublist.refl _)
    exact ⟨hg ▸ h.serves, h.distinct.sublist hsub,
      fun tag ht => hg ▸ h.numbers tag (hsub.subset ht),
      h.replied.sublist (hp.replies.map _), hp.deliveries ▸ fun r hr =>
        h.handled r (hp.replies.subset hr)⟩

theorem step (h : Numbered client s) (hs : (machine client).step s a = some s') :
    Numbered client s' := by
  rcases State.step_passes hs with ⟨i, order, now, m, hm, rfl⟩ | ⟨_, hp⟩
  case inl => exact h.deliver hm order now
  case inr => exact h.passes hp

theorem of_reachable (h : (machine client).Reachable s) : Numbered client s :=
  h.invariant init fun _ _ _ hi hs => hi.step hs

theorem deliveries_nodup (h : Numbered client s) : (s.deliveries.map (·.sent.tag)).Nodup :=
  (List.nodup_append.mp h.distinct).2.1

theorem delivery (h : Numbered client s) {d : Delivery} (hd : d ∈ s.deliveries) :
    Numbers client s.gateway d.sent.tag :=
  h.numbers d.sent.tag (List.mem_append_right _ (List.mem_map_of_mem hd))

theorem countP_le (h : Numbered client s) (id : ℕ) :
    s.deliveries.countP (·.sent.tag.handler = id) ≤ client.maxAttempts := by
  have hn : ((s.deliveries.filter (·.sent.tag.handler = id)).map (·.sent.tag.attempt)).Nodup := by
    refine List.Nodup.map_on (fun d hd e he heq => ?_) ?_
    case refine_1 =>
      have hd := List.mem_filter.mp hd
      have he := List.mem_filter.mp he
      have htag : d.sent.tag = e.sent.tag := by
        have hd' := of_decide_eq_true hd.2
        have he' := of_decide_eq_true he.2
        cases hdt : d.sent.tag
        cases het : e.sent.tag
        simp_all
      exact List.inj_on_of_nodup_map h.deliveries_nodup hd.1 he.1 htag
    case refine_2 => exact (List.Nodup.of_map _ h.deliveries_nodup).filter _
  have hs : (s.deliveries.filter (·.sent.tag.handler = id)).map (·.sent.tag.attempt) ⊆
      List.range' 1 client.maxAttempts := by
    intro n hn
    obtain ⟨d, hd, rfl⟩ := List.mem_map.mp hn
    have hnum := h.delivery (List.mem_filter.mp hd).1
    have := hnum.pos
    have := hnum.le
    exact List.mem_range'_1.mpr (by omega)
  have hl := (List.subperm_of_subset hn hs).length_le
  rwa [List.length_map, ← List.countP_eq_length_filter, List.length_range'] at hl

end Numbered

-- The Account Service handles every attempt at most once, and at most so many for a request as the
-- client makes attempts; it answers nothing that it has not handled.
theorem handled_once (h : (machine client).Reachable s) :
    (s.deliveries.map (·.sent.tag)).Nodup ∧
    (∀ m ∈ s.requests, ∀ d ∈ s.deliveries, m.tag ≠ d.sent.tag) ∧
    (∀ r ∈ s.replies, ∃ d ∈ s.deliveries, d.sent.tag = r.tag) ∧
    (s.replies.map (·.tag)).Nodup ∧
    ∀ id, s.deliveries.countP (·.sent.tag.handler = id) ≤
      if id < s.gateway.begun.length then client.maxAttempts else 0 := by
  have hn := Numbered.of_reachable h
  refine ⟨hn.deliveries_nodup, fun m hm d hd he => ?_, fun r hr => ?_, hn.replied, fun id => ?_⟩
  case refine_1 =>
    exact (List.nodup_append.mp hn.distinct).2.2 m.tag (List.mem_map_of_mem hm) d.sent.tag
      (List.mem_map.mpr ⟨d, hd, rfl⟩) he
  case refine_2 => exact List.mem_map.mp (hn.handled r hr)
  case refine_3 =>
    split
    case isTrue     => exact hn.countP_le id
    case isFalse hi =>
      rw [Nat.le_zero, List.countP_eq_zero]
      intro d hd he
      exact hi (of_decide_eq_true he ▸ (hn.delivery hd).begun)

-- The request of an attempt that has timed out is handled beside that of the next one.
def lateRun : List Action :=
  [
    .begin (.applyTransaction .sample),
    .fail 0 EventPayload.sample.eventTimestamp .readTimeout,
    .wake 0,
    .deliver 0 .inserted EventPayload.sample.eventTimestamp,
    .deliver 0 .inserted EventPayload.sample.eventTimestamp,
    .receive 1 EventPayload.sample.eventTimestamp
  ]

theorem handled_once_late : ∃ s, (machine .default).run lateRun = some s ∧
    s.deliveries.length = 2 ∧ (s.deliveries.map (·.sent.tag)).Nodup := by
  have hr : ((machine .default).run lateRun).map (·.deliveries.length) = some 2 := by
    decide +kernel
  have ⟨s, hs, hl⟩ := Option.map_eq_some_iff.mp hr
  exact ⟨s, hs, hl, (handled_once ⟨_, hs⟩).1⟩

end System
