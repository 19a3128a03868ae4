import EventLedger.Account.Theorems.Counters
import EventLedger.System.Theorems.Convergence
import EventLedger.System.Theorems.Reading

-- The counters of the two services.
namespace System

open Gateway (Audited Client Reconciles Regular)

variable {client : Client} {s s' : State} {a : Action}

-- What the Gateway inserts can be read back, since the Account Service has accepted it.
theorem Sound.regular (h : Sound client s) {b : Gateway.Action} (ha : s.gatewayAction a = some b)
    (hn : a ≠ .restartGateway) : Regular s.gateway b where
  continues he := by
    subst he
    cases a
    case restartGateway => exact hn rfl
    case receive        => cases (Option.map_eq_some_iff.mp ha).choose_spec.2
    all_goals cases ha
  inserts id now outcome handler event e hb ho hh hop he := by
    subst hb
    have hs : s.gateway.submitted id = some event :=
      Gateway.State.submitted_eq_some.mpr (hop ▸ h.gateway.running id handler hh)
    have hc := Sound.length_of_accepted (h.accepted ha ho hs)
    exact Gateway.conflict_of_error (fun _ => h.gateway.readable) hc he

-- What holds of the counters while neither process stops.
structure Counted (client : Client) (s : State) : Prop where
  sound : Sound client s
  audited : Audited client s.gateway
  applied : s.account.count "account.transactions.applied" = s.account.transactions.rows.length
  counted : s.account.counted = s.deliveries.countP fun d => Account.posts d.sent.request

theorem Counted.init : Counted client .init where
  sound := .init
  audited := .init
  applied := rfl
  counted := rfl

-- A payload that the Gateway has sent can be recorded if it is valid.
theorem Asked.length {g : Gateway.State} {m : Gateway.Sent} (h : Asked client g m) {body : Document}
    {q : EventPayload} (hb : m.request.body = some body) (hq : EventPayload.ofJson body = .ok q) :
    q.currency.length = 3 := by
  have ⟨operation, _, hr⟩ := h
  cases operation
  case applyTransaction event =>
    rw [(Client.request_applyTransaction hr).2.1, Option.some_inj] at hb
    obtain ⟨hc, _, _, _, rfl⟩ := EventPayload.ofJson_body_iff.mp (hb ▸ hq)
    exact hc
  case getBalance =>
    rw [(Client.request_getBalance hr).2.1] at hb
    cases hb
  case getAccount =>
    rw [(Client.request_getAccount hr).2.1] at hb
    cases hb

-- Messages that are lost leave the Account Service alone.
theorem Idles.account (h : Idles s s') (hs : (machine client).step s a = some s')
    (ha : s.gatewayAction a = none) (hn : a ≠ .restartAccount) : s'.account = s.account := by
  cases a
  case loseRequest    => exact Option.some.inj hs ▸ rfl
  case loseReply      => exact Option.some.inj hs ▸ rfl
  case restartAccount => exact absurd rfl hn
  case deliver =>
    obtain ⟨m, _, rfl⟩ := Option.map_eq_some_iff.mp hs
    exact absurd (congrArg List.length h.deliveries) (by simp)
  case receive =>
    have ⟨reply, hr, _⟩ := Option.bind_eq_some_iff.mp hs
    simp [State.gatewayAction, hr] at ha
  all_goals cases ha

theorem Counted.step (h : Counted client s) (hs : (machine client).step s a = some s')
    (hg : a ≠ .restartGateway) (ha : a ≠ .restartAccount) : Counted client s' := by
  have hst := h.sound.step hs
  cases State.step_moves hs
  case turn b sent hb ht =>
    refine ⟨hst, h.audited.step (h.sound.regular hb hg) (congrArg (Option.map _) ht.step), ?_, ?_⟩
    case refine_1 => exact ht.account ▸ h.applied
    case refine_2 => exact ht.account ▸ ht.deliveries ▸ h.counted
  case idle hn hi =>
    have he := hi.account hs hn ha
    refine ⟨hst, hi.gateway ▸ h.audited, ?_, ?_⟩
    case refine_1 => exact he ▸ h.applied
    case refine_2 => exact he ▸ hi.deliveries ▸ h.counted
  case deliver i order now m hm =>
    have hasked := h.sound.requests m (List.mem_of_getElem? hm)
    have hc : Account.Counts s.account (Account.posts m.request)
        (s.account.handle order now m.request).2 :=
      Account.counts_handle h.sound.received.readable fun _ _ => hasked.length
    refine ⟨hst, h.audited, ?_, ?_⟩
    case refine_1 =>
      have := hc.applied
      have := h.applied
      simp only [State.delivered]
      omega
    case refine_2 =>
      simp only [State.delivered, List.countP_append, List.countP_singleton]
      rw [hc.counted, h.counted]

-- The rows of the Account Service are those of the Gateway's events and the others.
theorem Sound.rows_length (h : Sound client s) : s.account.transactions.rows.length =
    s.gateway.events.rows.length + s.orphanCount := by
  let recorded := fun key => (s.gateway.events.find? key).isSome
  have hp : ((s.account.transactions.rows.map (·.eventId)).filter recorded).Perm
      (s.gateway.events.rows.map (·.eventId)) := by
    refine (List.perm_ext_iff_of_nodup (s.account.transactions.nodup.filter _)
      s.gateway.events.nodup).mpr fun key => ?_
    rw [List.mem_filter]
    constructor
    case mp =>
      rintro ⟨_, hk⟩
      have ⟨g, hf⟩ := Option.isSome_iff_exists.mp hk
      obtain ⟨hg, rfl⟩ := Table.find?_eq_some.mp hf
      exact List.mem_map_of_mem hg
    case mpr =>
      intro hk
      obtain ⟨g, hg, rfl⟩ := List.mem_map.mp hk
      have ⟨row, hr⟩ := h.find?_of_recorded hg
      have ⟨hm, hk⟩ := Table.find?_eq_some.mp hr
      refine ⟨hk ▸ List.mem_map_of_mem hm, ?_⟩
      exact Option.isSome_iff_exists.mpr ⟨g, Table.find?_eq_some.mpr ⟨hg, rfl⟩⟩
  have hl := hp.length_eq
  rw [List.length_map, ← List.countP_eq_length_filter, List.countP_map] at hl
  rw [← hl, State.orphanCount, List.length_eq_countP_add_countP (recorded ∘ (·.eventId))]
  refine congrArg _ (List.countP_congr fun row _ => ?_)
  simp [recorded]

-- In every state of a run in which neither process stops, the counters agree with the tables, with
-- what has been handled and answered, and with each other.
structure CountersAgree (s : State) : Prop where
  gateway : Reconciles s.gateway
  applied : s.account.count "account.transactions.applied" = s.account.transactions.rows.length
  counted : s.account.counted = s.deliveries.countP fun d => Account.posts d.sent.request
  orphans : s.account.count "account.transactions.applied" =
    s.gateway.count "gateway.events.accepted" + s.orphanCount

theorem counters_agree {as : List Action} (h : (machine client).run as = some s)
    (hg : .restartGateway ∉ as) (ha : .restartAccount ∉ as) : CountersAgree s := by
  have hc : Counted client s := by
    refine Machine.runFrom_invariant_of_meets (m := machine client) (I := Counted client)
      (C := fun _ a => a ≠ .restartGateway ∧ a ≠ .restartAccount)
      (fun _ _ _ hi hn hs => hi.step hs hn.1 hn.2) .init (Machine.meets_of_mem ?_) h
    exact fun a hm => ⟨fun he => hg (he ▸ hm), fun he => ha (he ▸ hm)⟩
  refine ⟨hc.audited.reconciles, hc.applied, hc.counted, ?_⟩
  rw [hc.applied, hc.audited.reconciles.accepted, hc.sound.rows_length]

theorem counters_agree_lostReply : ∃ s, (machine .default).run lostReply = some s ∧
    s.orphanCount = 1 ∧ CountersAgree s := by
  have hr : ((machine .default).run lostReply).map State.orphanCount = some 1 := by decide +kernel
  have ⟨s, hs, hn⟩ := Option.map_eq_some_iff.mp hr
  refine ⟨s, hs, hn, counters_agree hs ?_ ?_⟩
  case refine_1 => simp [lostReply, timeouts]
  case refine_2 => simp [lostReply, timeouts]

end System
