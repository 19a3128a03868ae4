import EventLedger.Account.Theorems.Balance
import EventLedger.Base.Ledger
import EventLedger.Base.Simulation
import EventLedger.Gateway.Theorems.History
import EventLedger.System.Theorems.Agreement

-- The two services together keep one ledger: the Account Service posts, and the Gateway
-- acknowledges.
namespace System

open Gateway (Client EventRow Sent)
open Account (TransactionRow)

variable {client : Client} {s s' : State} {a : Action} {event : EventPayload}
variable {accountId : Text}

def chart : Chart TransactionRow Text Text Text where
  key row := row.eventId
  account row := row.accountId
  unit row := row.currency

-- A row is acknowledged when the Gateway has recorded its event.
structure Represents (s : State) (l : Ledger chart) : Prop where
  posted : ∀ r, r ∈ l.posted ↔ r ∈ s.account.transactions.rows
  acknowledged : ∀ r, r ∈ l.acknowledged ↔
    r ∈ s.account.transactions.rows ∧ (s.gateway.events.find? r.eventId).isSome

-- What has been written between two states.
def State.written (s s' : State) : Option (Ledger.Action TransactionRow) :=
  match s'.account.transactions.rows.drop s.account.transactions.rows.length,
    s'.gateway.events.rows.drop s.gateway.events.rows.length with
  | row :: _, _     => some (.post row)
  | [], event :: _  => (s'.account.transactions.find? event.eventId).map .acknowledge
  | [], []          => none

-- What the Gateway has an event of, the Account Service has a row of.
theorem Sound.find?_of_accepted (h : Sound client s)
    (ha : Accepted client s.account.transactions event) : ∃ row,
      s.account.transactions.find? event.eventId = some row ∧ ∃ now q,
        row = Account.insertedRow now q ∧
        ∃ p, EventPayload.ofJson event.body = .ok p ∧ q.SameFacts p := by
  have ⟨_, p, hp, ht⟩ := ha
  obtain ⟨row, hr, now, q, rfl, hs⟩ := h.taken_row ht
  obtain ⟨_, x, _, _, rfl⟩ := EventPayload.ofJson_body_iff.mp hp
  exact ⟨_, Table.find?_eq_some.mpr ⟨hr, hs.eventId⟩, now, q, rfl, _, hp, hs⟩

theorem Sound.find?_of_recorded (h : Sound client s) {g : EventRow}
    (hg : g ∈ s.gateway.events.rows) : ∃ row,
      s.account.transactions.find? g.eventId = some row := by
  obtain ⟨now, event, rfl, ha⟩ := h.recorded g hg
  have ⟨row, hr, _⟩ := h.find?_of_accepted ha
  exact ⟨row, hr⟩

theorem Turns.account_transactions {b : Gateway.Action} {sent : Option Sent}
    (h : Turns client s b sent s') : s'.account.transactions = s.account.transactions :=
  congrArg (·.transactions) h.account

namespace Represents

variable {l : Ledger chart}

theorem init : Represents .init (.empty chart) where
  posted r := by simp [Ledger.empty, State.init, Account.State.init, Table.empty]
  acknowledged r := by simp [Ledger.empty, State.init, Account.State.init, Table.empty]

-- What leaves both tables as they are does nothing to the ledger.
theorem idle (h : Represents s l) (ha : s'.account.transactions = s.account.transactions)
    (hg : s'.gateway.events = s.gateway.events) :
    s.written s' = none ∧ Represents s' l := by
  refine ⟨by simp [State.written, ha, hg], ?_, ?_⟩
  case refine_1 => exact ha ▸ h.posted
  case refine_2 => exact ha ▸ hg ▸ h.acknowledged

-- A new row of the Account Service is an entry that the ledger admits.
theorem post (hs : Sound client s) (h : Represents s l) {now : Civil}
    (hf : s.account.transactions.find? event.eventId = none)
    (hc : ∀ row ∈ s.account.transactions.rows, row.accountId = event.accountId →
      row.currency = event.currency)
    (hu : s'.account.transactions.rows =
      s.account.transactions.rows ++ [Account.insertedRow now event])
    (hg : s'.gateway.events = s.gateway.events) :
    ∃ l', (Ledger.machine chart).runFrom l (s.written s').toList = some l' ∧
      Represents s' l' := by
  have hw : s.written s' = some (.post (Account.insertedRow now event)) := by
    simp [State.written, hu]
  have hadmit : l.Admits (Account.insertedRow now event) := fun f hm =>
    have hm := (h.posted f).mp hm
    ⟨Table.find?_eq_none.mp hf f hm, hc f hm⟩
  refine ⟨_, by simp only [hw, Option.toList, Machine.runFrom, Ledger.step_post hadmit]; rfl, ?_⟩
  constructor
  case posted =>
    intro r
    rw [hu, List.mem_append, List.mem_singleton, Ledger.post, Finset.mem_insert, h.posted, or_comm]
  case acknowledged =>
    intro r
    rw [Ledger.post, h.acknowledged, hu, hg, List.mem_append, List.mem_singleton, or_and_right]
    refine (or_iff_left fun hr => ?_).symm
    obtain ⟨hr, hsome⟩ := hr
    obtain ⟨g, hgf⟩ := Option.isSome_iff_exists.mp hsome
    obtain ⟨hgm, hk⟩ := Table.find?_eq_some.mp hgf
    obtain ⟨row, hrow⟩ := hs.find?_of_recorded hgm
    rw [hk, hr] at hrow
    cases hf.symm.trans hrow

-- A new event of the Gateway acknowledges the row of the Account Service.
theorem acknowledge (hs : Sound client s) (h : Represents s l) {now : Civil}
    (ha : Accepted client s.account.transactions event)
    (hf : s.gateway.events.find? event.eventId = none)
    (hu : s'.gateway.events.rows = s.gateway.events.rows ++ [Gateway.insertedRow now event])
    (ht : s'.account.transactions = s.account.transactions) :
    ∃ l', (Ledger.machine chart).runFrom l (s.written s').toList = some l' ∧
      Represents s' l' := by
  have ⟨row, hrow, _⟩ := hs.find?_of_accepted ha
  have ⟨hm, hk⟩ := Table.find?_eq_some.mp hrow
  have hw : s.written s' = some (.acknowledge row) := by
    have hrow : s.account.transactions.find? (Gateway.insertedRow now event).eventId = some row :=
      hrow
    simp [State.written, hu, ht, hrow]
  have hp : row ∈ l.posted := (h.posted row).mpr hm
  have hn : row ∉ l.acknowledged := by simp [h.acknowledged, hk, hf]
  refine ⟨_, by simp only [hw, Option.toList, Machine.runFrom, Ledger.step_acknowledge hp hn]; rfl,
    ?_⟩
  constructor
  case posted => exact fun r => ht ▸ h.posted r
  case acknowledged =>
    intro r
    have hfind := Table.find?_append hu r.eventId
    have hrow : r = row ↔ r ∈ s.account.transactions.rows ∧ event.eventId = r.eventId := by
      constructor
      case mp  => exact fun he => he ▸ ⟨hm, hk.symm⟩
      case mpr =>
        intro hr
        have hr := Table.find?_eq_some.mpr ⟨hr.1, hr.2.symm⟩
        exact Option.some.inj (hr.symm.trans hrow)
    rw [Ledger.acknowledge, Finset.mem_insert, h.acknowledged, hfind, ht, Option.isSome_or,
      Bool.or_eq_true, Option.isSome_ite, hrow, ← and_or_left, or_comm]
    rfl

-- A step of the system is a step of the ledger or none.
theorem step (hs : Sound client s) (h : Represents s l)
    (ha : (machine client).step s a = some s') :
    ∃ l', (Ledger.machine chart).runFrom l (s.written s').toList = some l' ∧
      Represents s' l' := by
  have hidle : s'.account.transactions = s.account.transactions →
      s'.gateway.events = s.gateway.events → s.written s' = none ∧ Represents s' l := h.idle
  cases State.step_moves ha
  case idle hi =>
    have ⟨hw, hr⟩ := hidle hi.transactions (hi.gateway ▸ rfl)
    exact ⟨l, by rw [hw]; rfl, hr⟩
  case deliver i order now m hm =>
    rcases s.account.handle_rows_cases order now m.request with he | ⟨q, _, hf, hg, hu⟩
    case inl =>
      have ⟨hw, hr⟩ := hidle he rfl
      exact ⟨l, by rw [hw]; rfl, hr⟩
    case inr => exact h.post hs hf ((Account.refuses_eq_none hs.account).mp hg) hu rfl
  case turn ha ht =>
    rcases (Gateway.State.step_moves ht.step).rows_cases with
      he | ⟨id, now, outcome, handler, event, now', hb, ho, hh, he, hf, hu⟩
    case inl =>
      have ⟨hw, hr⟩ := hidle ht.account_transactions he
      exact ⟨l, by rw [hw]; rfl, hr⟩
    case inr =>
      subst hb
      have hsub : s.gateway.submitted id = some event :=
        Gateway.State.submitted_eq_some.mpr (he ▸ hs.gateway.running id handler hh)
      exact h.acknowledge hs (hs.accepted ha ho hsub) hf hu ht.account_transactions

end Represents

-- The system keeps the ledger of its Account Service and acknowledges in it what its Gateway
-- records.
def simulation (client : Client) : Simulation (machine client) (Ledger.machine chart) where
  Represents s l := Sound client s ∧ Represents s l
  observe s a := ((machine client).step s a).bind s.written
  init := ⟨.init, .init⟩
  step h ha := by
    have ⟨l', hl, hr⟩ := h.2.step h.1 ha
    exact ⟨l', by rw [ha, Option.bind_some]; exact hl, h.1.step ha, hr⟩

-- The amount of an event as the Account Service has read it from the wire.
def wireAmount (row : EventRow) : ℚ :=
  match (Decimal.ofText row.amount).bind Binary64.ofDecimal with
  | none   => 0
  | some x =>
    if row.eventType = TransactionType.credit.value then x.readBack.value else -x.readBack.value

theorem exactAmount_of_accepted (now now' : Civil) {q p : EventPayload}
    (hp : EventPayload.ofJson event.body = .ok p) (hs : q.SameFacts p) :
    Account.exactAmount (Account.insertedRow now q) =
      wireAmount (Gateway.insertedRow now' event) := by
  obtain ⟨_, x, _, ho, rfl⟩ := EventPayload.ofJson_body_iff.mp hp
  have ha : (Account.insertedRow now q).readAmount = .ok q.amount := by
    simp [PayloadColumns.readAmount, Account.insertedRow, EventPayload.columns, Decimal.ofText_str]
  have hw : (Decimal.ofText (Gateway.insertedRow now' event).amount).bind Binary64.ofDecimal =
      some x := by
    simp [Gateway.insertedRow, EventPayload.columns, Decimal.ofText_str, ho]
  have ht : (Account.insertedRow now q).eventType = (Gateway.insertedRow now' event).eventType :=
    congrArg TransactionType.value hs.type
  have hv : q.amount.value = x.readBack.value := hs.amount
  simp only [Account.exactAmount, ha, wireAmount, hw, ht, hv]

-- The row that the Account Service holds of an event.
structure Held (s : State) (g : EventRow) (row : TransactionRow) : Prop where
  found : s.account.transactions.find? g.eventId = some row
  accountId : row.accountId = g.accountId
  currency : row.currency = g.currency
  amount : Account.exactAmount row = wireAmount g

theorem Sound.held (h : Sound client s) {g : EventRow} (hg : g ∈ s.gateway.events.rows) :
    ∃ row, Held s g row := by
  obtain ⟨now, event, rfl, ha⟩ := h.recorded g hg
  obtain ⟨row, hf, now', q, rfl, p, hp, hs⟩ := h.find?_of_accepted ha
  have ha := exactAmount_of_accepted now' now hp hs
  obtain ⟨_, x, _, _, rfl⟩ := EventPayload.ofJson_body_iff.mp hp
  exact ⟨_, hf, hs.accountId, hs.currency, ha⟩

-- An event of the Gateway is an acknowledged entry of the ledger.
theorem Represents.acknowledges {l : Ledger chart} {g : EventRow} (h : Represents s l)
    (hs : Sound client s) (hg : g ∈ s.gateway.events.rows) :
    ∃ row ∈ l.acknowledged, Held s g row := by
  obtain ⟨row, hr⟩ := hs.held hg
  have ⟨hm, hk⟩ := Table.find?_eq_some.mp hr.found
  have hf : s.gateway.events.find? row.eventId = some g := Table.find?_eq_some.mpr ⟨hg, hk.symm⟩
  exact ⟨row, (h.acknowledged row).mpr ⟨hm, by simp [hf]⟩, hr⟩

-- Every run of the system is a run of one ledger, in which each event is posted at most once and
-- acknowledged at most once, and not before it has been posted, and in which each event that the
-- Gateway has recorded is acknowledged.
theorem system_refines_ledger {as : List Action} (h : (machine client).run as = some s) :
    ∃ l, (Ledger.machine chart).run ((simulation client).trace .init as) = some l ∧
      Represents s l ∧ (∀ g ∈ s.gateway.events.rows, ∃ row ∈ l.acknowledged, Held s g row) ∧
      Ledger.Ran (.empty chart) ((simulation client).trace .init as) l := by
  have ⟨l, hl, hs, hr⟩ := (simulation client).run h
  exact ⟨l, hl, hr, fun g hg => hr.acknowledges hs hg, Ledger.ran hl⟩

theorem system_refines_ledger_sample : ∃ s l,
    (machine .default).run (recordingRun .sample) = some s ∧
    (Ledger.machine chart).run ((simulation .default).trace .init (recordingRun .sample)) =
      some l ∧ Represents s l ∧ s.gateway.events.rows.length = 1 ∧
    ∀ g ∈ s.gateway.events.rows, ∃ row ∈ l.acknowledged, Held s g row := by
  have hr : ((machine .default).run (recordingRun .sample)).map
      (·.gateway.events.rows.length) = some 1 := by decide +kernel
  have ⟨s, hs, hlen⟩ := Option.map_eq_some_iff.mp hr
  have ⟨l, hl, hr, hg, _⟩ := system_refines_ledger hs
  exact ⟨s, l, hs, hl, hr, hlen, hg⟩

-- The rows of an account whose events the Gateway has not recorded.
def orphans (s : State) (accountId : Text) : List TransactionRow :=
  (Account.accountRows s.account.transactions accountId).filter
    fun row => (s.gateway.events.find? row.eventId).isNone

theorem accountRows_nodup (t : Account.Transactions) (accountId : Text) :
    (Account.accountRows t accountId).Nodup :=
  (List.Nodup.of_map _ t.nodup).filter _

section Total

variable {l : Ledger chart}

theorem Represents.total_posted (h : Represents s l) (accountId : Text) :
    Ledger.total Account.exactAmount accountId chart l.posted =
      Account.exactBalance s.account.transactions accountId := by
  have he : l.posted.filter (chart.account · = accountId) =
      (Account.accountRows s.account.transactions accountId).toFinset := by
    ext r
    rw [Finset.mem_filter, h.posted, List.mem_toFinset, Account.accountRows, List.mem_filter,
      decide_eq_true_eq]
    rfl
  rw [Ledger.total, he, List.sum_toFinset _ (accountRows_nodup ..)]
  rfl

theorem Represents.total_pending (h : Represents s l) (accountId : Text) :
    Ledger.total Account.exactAmount accountId chart l.pending =
      ((orphans s accountId).map Account.exactAmount).sum := by
  have he : l.pending.filter (chart.account · = accountId) = (orphans s accountId).toFinset := by
    ext r
    rw [Finset.mem_filter, Ledger.pending, Finset.mem_sdiff, h.posted, h.acknowledged]
    simp only [List.mem_toFinset, orphans, Account.accountRows, List.mem_filter, decide_eq_true_eq,
      Option.isNone_iff_eq_none, Option.isSome_iff_ne_none, chart]
    tauto
  have hn : (orphans s accountId).Nodup := (accountRows_nodup ..).filter _
  rw [Ledger.total, he, List.sum_toFinset _ hn]

theorem Represents.total_acknowledged (hs : Sound client s) (h : Represents s l)
    (accountId : Text) : Ledger.total Account.exactAmount accountId chart l.acknowledged =
      ((Gateway.accountRows s.gateway.events accountId).map wireAmount).sum := by
  have hn : (Gateway.accountRows s.gateway.events accountId).Nodup :=
    (List.Nodup.of_map _ s.gateway.events.nodup).filter _
  have hg : ∀ g, g ∈ (Gateway.accountRows s.gateway.events accountId).toFinset ↔
      g ∈ s.gateway.events.rows ∧ g.accountId = accountId := by
    simp [Gateway.mem_accountRows]
  rw [Ledger.total, ← List.sum_toFinset _ hn]
  -- An event goes with the row that has its eventId.
  choose row hrow using fun g hm => hs.held (((hg g).mp hm).1)
  refine (Finset.sum_bij row ?_ ?_ ?_ ?_).symm
  case refine_1 =>
    intro g hm
    obtain ⟨hr, hk⟩ := Table.find?_eq_some.mp (hrow g hm).found
    have hf := Table.find?_eq_some.mpr ⟨((hg g).mp hm).1, rfl⟩
    rw [Finset.mem_filter, h.acknowledged, hk, hf]
    exact ⟨⟨hr, rfl⟩, (hrow g hm).accountId.trans ((hg g).mp hm).2⟩
  case refine_2 =>
    intro g hm g' hm' he
    have hk := (Table.find?_eq_some.mp (hrow g hm).found).2
    have hk' := (Table.find?_eq_some.mp (hrow g' hm').found).2
    rw [he] at hk
    exact List.inj_on_of_nodup_map s.gateway.events.nodup ((hg g).mp hm).1 ((hg g').mp hm').1
      (hk.symm.trans hk')
  case refine_3 =>
    intro r hr
    rw [Finset.mem_filter, h.acknowledged] at hr
    obtain ⟨⟨hm, hsome⟩, hacc⟩ := hr
    obtain ⟨g, hf⟩ := Option.isSome_iff_exists.mp hsome
    obtain ⟨hgm, hk⟩ := Table.find?_eq_some.mp hf
    obtain ⟨r', hr'⟩ := hs.held hgm
    have he : r' = r := Option.some.inj <|
      hr'.found.symm.trans (Table.find?_eq_some.mpr ⟨hm, hk.symm⟩)
    have hgm : g ∈ (Gateway.accountRows s.gateway.events accountId).toFinset :=
      (hg g).mpr ⟨hgm, hr'.accountId.symm.trans (he ▸ hacc)⟩
    refine ⟨g, hgm, ?_⟩
    exact Option.some.inj ((hrow g hgm).found.symm.trans (hr'.found.trans (congrArg some he)))
  case refine_4 => exact fun g hm => (hrow g hm).amount.symm

end Total

-- The balance of an account is what the Gateway's events of it add up to on the wire, and what
-- the Account Service has applied without the Gateway having recorded it.
theorem balance_reconciles (h : (machine client).Reachable s) (accountId : Text) :
    Account.exactBalance s.account.transactions accountId =
      ((Gateway.accountRows s.gateway.events accountId).map wireAmount).sum +
      ((orphans s accountId).map Account.exactAmount).sum := by
  have ⟨l, _, hs, hr⟩ := (simulation client).reachable h
  rw [← hr.total_posted, Ledger.total_posted, hr.total_acknowledged hs, hr.total_pending]

theorem balance_reconciles_sample : ∃ s, (machine .default).run (recordingRun .sample) = some s ∧
    ∀ accountId, Account.exactBalance s.account.transactions accountId =
      ((Gateway.accountRows s.gateway.events accountId).map wireAmount).sum +
      ((orphans s accountId).map Account.exactAmount).sum := by
  have hr : ((machine .default).run (recordingRun .sample)).isSome := by decide +kernel
  have ⟨s, hs⟩ := Option.isSome_iff_exists.mp hr
  exact ⟨s, hs, balance_reconciles ⟨_, hs⟩⟩

end System
