import EventLedger.System.Theorems.Effects
import EventLedger.System.Theorems.Refinement
import EventLedger.System.Theorems.Unavailable

namespace System

open Gateway (Client EventRow)
open Account (TransactionRow)

variable {client : Client} {s s' : State} {a : Action} {row : TransactionRow}

-- Without a restart of the Gateway every request is attended to.
theorem attends_of_moves (hm : Moves client s a s') (ha : a ≠ .restartGateway)
    (h : ∀ id < s.gateway.begun.length, s.gateway.Attends id) :
    ∀ id < s'.gateway.begun.length, s'.gateway.Attends id := by
  cases hm
  case deliver => exact h
  case idle hi => exact hi.gateway ▸ h
  case turn b _ hb ht =>
    refine (Gateway.State.step_drives ht.step).attends (fun he => ha ?_) h
    subst he
    cases a
    case restartGateway => rfl
    case receive        => cases (Option.map_eq_some_iff.mp hb).choose_spec.2
    all_goals cases hb

theorem attends_of_run {as : List Action} (h : (machine client).run as = some s)
    (hr : .restartGateway ∉ as) : ∀ id < s.gateway.begun.length, s.gateway.Attends id := by
  refine Machine.runFrom_invariant_of_meets (m := machine client)
    (I := fun s : State => ∀ id < s.gateway.begun.length, s.gateway.Attends id) ?_
    (fun _ hi => absurd hi (Nat.not_lt_zero _))
    (Machine.meets_of_mem (C := (· ≠ .restartGateway)) fun a ha he => hr (he ▸ ha)) h
  exact fun s a s' hs hc hstep => attends_of_moves (State.step_moves hstep) hc hs

-- The submission of a row that the Gateway has no event of.
structure Stranded (s : State) (row : TransactionRow) (id : ℕ) : Prop where
  inserted : ∃ d ∈ s.deliveries, d.inserted ∧ d.sent.tag.handler = id ∧ ∃ p q,
    s.gateway.submitted id = some p ∧ EventPayload.ofJson p.body = .ok q ∧
    row = Account.insertedRow d.now q
  failed : ∀ answer ∈ s.gateway.answers, answer.handler = id → 400 ≤ answer.reply.status

-- A row without an event is that of a submission that has not succeeded: it is still in progress,
-- has been answered with an error, or has been cut off by a restart of the Gateway.
theorem orphan_stranded {as : List Action} (h : (machine client).run as = some s)
    (hr : row ∈ s.account.transactions.rows) (hn : s.gateway.events.find? row.eventId = none) :
    ∃ id, Stranded s row id ∧ (.restartGateway ∉ as → s.gateway.Attends id) := by
  have hs : Sound client s := .of_reachable ⟨as, h⟩
  obtain ⟨d, hd, hi, q, hq, rfl⟩ := (written_of_reachable ⟨as, h⟩).source row hr
  have hasked := hs.delivered d hd
  have ⟨p, hp, hj⟩ := hasked.submits hq
  refine ⟨d.sent.tag.handler, ⟨⟨d, hd, hi, rfl, p, q, hp, hj, rfl⟩, fun answer ha he => ?_⟩,
    fun hg => attends_of_run h hg _ hasked.lt⟩
  by_contra hlt
  have ⟨record, hrec, _⟩ :=
    hs.gateway.recorded answer ha p (he ▸ hp) (Nat.lt_of_not_le hlt)
  obtain ⟨_, x, _, _, rfl⟩ := EventPayload.ofJson_body_iff.mp hj
  have hn : s.gateway.events.find? p.eventId = none := hn
  rw [Gateway.getEvent_none hn] at hrec
  cases hrec

theorem orphan_stranded_lostReply : ∃ s row id, (machine .default).run lostReply = some s ∧
    row ∈ s.account.transactions.rows ∧ Stranded s row id ∧ s.gateway.Attends id := by
  have hr : ((machine .default).run lostReply).map (fun s =>
      (s.account.transactions.rows.length, s.gateway.events.rows.length)) = some (1, 0) := by
    decide +kernel
  have ⟨s, hs, hl⟩ := Option.map_eq_some_iff.mp hr
  have ⟨hl, hg⟩ := Prod.mk.inj hl
  have ⟨row, hrow⟩ := List.length_eq_one_iff.mp hl
  have hm : row ∈ s.account.transactions.rows := by simp [hrow]
  have hn : s.gateway.events.find? row.eventId = none := by
    simp [Table.find?, List.length_eq_zero_iff.mp hg]
  obtain ⟨id, hi, ha⟩ := orphan_stranded hs hm hn
  exact ⟨s, row, id, hs, hm, hi, ha (by simp [lostReply, timeouts])⟩

-- The events of an account that the Gateway has recorded are in one currency, which is that of
-- every balance of the account.
theorem recorded_currency (h : (machine client).Reachable s) {g : EventRow}
    (hg : g ∈ s.gateway.events.rows) :
    (∀ g' ∈ s.gateway.events.rows, g'.accountId = g.accountId → g'.currency = g.currency) ∧
    ∀ order balance, Account.getBalance order s.account.transactions g.accountId = .ok balance →
      balance.currency = some g.currency := by
  have hs := Sound.of_reachable h
  have ⟨r, hr⟩ := hs.held hg
  have hrm := (Table.find?_eq_some.mp hr.found).1
  constructor
  case left =>
    intro g' hg' he
    have ⟨r', hr'⟩ := hs.held hg'
    have hrm' := (Table.find?_eq_some.mp hr'.found).1
    have ha : r'.accountId = r.accountId := hr'.accountId.trans (he.trans hr.accountId.symm)
    rw [← hr'.currency, ← hr.currency, hs.account.currency r' hrm' r hrm ha]
  case right =>
    intro order balance hb
    rw [(Account.getBalance_reports hs.account hb).some_of_row r hrm hr.accountId, hr.currency]

-- A credit and a debit of one account are recorded.
theorem recorded_currency_sample : ∃ s g g' balance,
    (machine .default).run (recordingRun .sample ++ recordingRun .sampleDebit) = some s ∧
    s.gateway.events.rows = [g, g'] ∧ g'.accountId = g.accountId ∧
    Account.getBalance .inserted s.account.transactions g.accountId = .ok balance ∧
    g'.currency = g.currency ∧ balance.currency = some g.currency := by
  have hr : ((machine .default).run (recordingRun .sample ++ recordingRun .sampleDebit)).map
      (fun s => (s.gateway.events.rows.map (·.accountId),
        (Account.getBalance .inserted s.account.transactions
          EventPayload.sample.accountId).toOption.isSome)) =
      some ([EventPayload.sample.accountId, EventPayload.sample.accountId], true) := by
    decide +kernel
  have ⟨s, hs, he⟩ := Option.map_eq_some_iff.mp hr
  have ⟨hrows, hb⟩ := Prod.mk.inj he
  obtain ⟨g, rest, hrows, hg, hrest⟩ := List.map_eq_cons_iff.mp hrows
  obtain ⟨g', rfl, hg'⟩ := List.map_eq_singleton_iff.mp hrest
  have hm : g ∈ s.gateway.events.rows := by simp [hrows]
  have hm' : g' ∈ s.gateway.events.rows := by simp [hrows]
  have hacc : g'.accountId = g.accountId := hg'.trans hg.symm
  cases hbal : Account.getBalance .inserted s.account.transactions g.accountId
  case error => simp [← hg, hbal, Except.toOption] at hb
  case ok balance =>
    obtain ⟨hc, hbalance⟩ := recorded_currency ⟨_, hs⟩ hm
    exact ⟨s, g, g', balance, hs, hrows, hacc, hbal, hc g' hm' hacc,
      hbalance .inserted balance hbal⟩

end System
