import EventLedger.Account.Theorems.Arrival
import EventLedger.System.Theorems.Verdicts

namespace Gateway

variable {t t' : Events} {accountId : Text}

-- The columns of a row apart from the times at which the Gateway has recorded it.
def facts (t : Events) : List PayloadColumns :=
  t.rows.map (·.toPayloadColumns)

theorem facts_eventIds (t : Events) : ((facts t).map (·.eventId)).Nodup := by
  rw [facts, List.map_map]
  exact t.nodup

theorem listRows_facts (order : RowOrder EventRow) (t : Events) (accountId : Text) :
    (listRows order t accountId).map (·.toPayloadColumns) = Table.orderBy Account.factColumns
      ((t.select order (·.accountId = accountId)).map (·.toPayloadColumns)) := by
  have h : ∀ rows : List EventRow, (Table.orderBy listColumns rows).map (·.toPayloadColumns) =
      Table.orderBy Account.factColumns (rows.map (·.toPayloadColumns)) :=
    Table.orderBy_map _ fun _ => rfl
  exact h _

theorem select_facts (order : RowOrder EventRow) (t : Events) (accountId : Text) :
    ((t.select order (·.accountId = accountId)).map (·.toPayloadColumns)).Perm
      ((facts t).filter (·.accountId = accountId)) := by
  rw [facts, List.filter_map]
  exact (order.perm _).map _

-- The list of an account depends only on these columns.
theorem listRows_congr (order order' : RowOrder EventRow) (h : (facts t).Perm (facts t')) :
    (listRows order t accountId).map (·.toPayloadColumns) =
    (listRows order' t' accountId).map (·.toPayloadColumns) := by
  have hs := select_facts order t accountId
  rw [listRows_facts, listRows_facts]
  apply Table.orderBy_unique (hs.trans ((h.filter _).trans (select_facts order' t' accountId).symm))
  intro a ha b hb hab
  have he : a.eventId = b.eventId := by
    simp only [Account.factColumns, List.cons.injEq] at hab
    exact Text.utf8_injective hab.2.1
  exact List.inj_on_of_nodup_map (facts_eventIds t) (List.mem_of_mem_filter (hs.mem_iff.mp ha))
    (List.mem_of_mem_filter (hs.mem_iff.mp hb)) he

variable {client : Client} {s s' : State} {a : Action} {sent : Option Sent}

-- The rows are those of payloads that have been submitted.
def Requested (s : State) : Prop :=
  ∀ row ∈ s.events.rows, ∃ now event, row = insertedRow now event ∧
    .applyTransaction event ∈ s.begun

theorem Requested.moves (h : Requested s) (hs : Sound s) (hm : Moves client s a s' sent) :
    Requested s' := by
  have hold : ∀ row ∈ s.events.rows, ∃ now event, row = insertedRow now event ∧
      .applyTransaction event ∈ s'.begun := by
    intro row hr
    have ⟨now, event, he, hb⟩ := h row hr
    exact ⟨now, event, he, hm.begun.mem hb⟩
  intro row hr
  cases hm.rows_cases
  case inl he => exact hold row (he ▸ hr)
  case inr hn =>
    have ⟨id, _, _, handler, event, now, _, _, hh, ho, _, hu⟩ := hn
    rw [hu, List.mem_append, List.mem_singleton] at hr
    cases hr
    case inl hr => exact hold row hr
    case inr hr =>
      exact ⟨now, event, hr, hm.begun.mem (List.mem_of_getElem? (ho ▸ hs.running id handler hh))⟩

end Gateway

namespace Account

variable {t t' : Transactions}

def factAmount (columns : PayloadColumns) : ℚ :=
  match columns.readAmount with
  | .ok amount =>
    if columns.eventType = TransactionType.credit.value then amount.value else -amount.value
  | .error _   => 0

theorem exactBalance_congr (h : (facts t).Perm (facts t')) (accountId : Text) :
    exactBalance t accountId = exactBalance t' accountId := by
  have hb : ∀ t : Transactions, exactBalance t accountId =
      (((facts t).filter (·.accountId = accountId)).map factAmount).sum := by
    intro t
    rw [facts, List.filter_map, List.map_map]
    rfl
  rw [hb, hb]
  exact ((h.filter _).map _).sum_eq

end Account

namespace System

open Gateway (Client EventRow)
open Account (TransactionRow)

variable {client client' : Client} {s t : State} {p q : EventPayload} {columns : PayloadColumns}

-- Every submission has been answered with success, at its first attempt or when it was repeated.
def Settled (s : State) : Prop :=
  ∀ p, .applyTransaction p ∈ s.gateway.begun → ∃ answer ∈ s.gateway.answers,
    s.gateway.submitted answer.handler = some p ∧ answer.reply.status < 400

-- An event is always submitted with the same payload.
def Distinct (s : State) : Prop :=
  ∀ p q, .applyTransaction p ∈ s.gateway.begun → .applyTransaction q ∈ s.gateway.begun →
    p.eventId = q.eventId → p = q

theorem requested_of_reachable (h : (machine client).Reachable s) :
    Gateway.Requested s.gateway := by
  have hi : Sound client s ∧ Gateway.Requested s.gateway := by
    apply h.invariant
    case hi => exact ⟨.init, by simp [Gateway.Requested, machine, State.init, Gateway.State.init,
      Table.empty]⟩
    case hs =>
      intro s a s' hi hs
      refine ⟨hi.1.step hs, ?_⟩
      cases State.step_moves hs
      case turn ht  => exact hi.2.moves hi.1.gateway (Gateway.State.step_moves ht.step)
      case deliver  => exact hi.2
      case idle hi' => exact hi'.gateway ▸ hi.2
  exact hi.2

theorem Settled.recorded (h : Settled s) (hr : (machine client).Reachable s)
    (hp : .applyTransaction p ∈ s.gateway.begun) : ∃ record,
    Gateway.getEvent s.gateway.events p.eventId = .ok (some record) ∧ record.SameFacts p := by
  have ⟨answer, ha, hsub, hok⟩ := h p hp
  have ⟨_, record, _, hg, hsame⟩ := (Vouched.of_reachable hr).faithful answer ha p hsub hok
  exact ⟨record, hg, hsame⟩

theorem Settled.mem_events (h : Settled s) (hd : Distinct s) (hr : (machine client).Reachable s) :
    columns ∈ Gateway.facts s.gateway.events ↔
      ∃ p, .applyTransaction p ∈ s.gateway.begun ∧ p.columns = columns := by
  constructor
  case mp =>
    intro hm
    have ⟨row, hrow, he⟩ := List.mem_map.mp hm
    have ⟨now, p, hp, hb⟩ := requested_of_reachable hr row hrow
    exact ⟨p, hb, he ▸ hp ▸ rfl⟩
  case mpr =>
    intro ⟨p, hb, he⟩
    have ⟨_, hg, _⟩ := h.recorded hr hb
    have ⟨row, hf, _⟩ := Gateway.getEvent_eq_some hg
    have ⟨hrow, hid⟩ := Table.find?_eq_some.mp hf
    have ⟨now, p', hp', hb'⟩ := requested_of_reachable hr row hrow
    subst hp'
    cases hd p' p hb' hb hid
    exact List.mem_map.mpr ⟨_, hrow, he⟩

theorem Settled.mem_transactions (h : Settled s) (hd : Distinct s)
    (hr : (machine client).Reachable s) : columns ∈ Account.facts s.account.transactions ↔
      ∃ p q, .applyTransaction p ∈ s.gateway.begun ∧ EventPayload.ofJson p.body = .ok q ∧
        q.columns = columns := by
  have hsource : ∀ row ∈ s.account.transactions.rows, ∃ p q now,
      .applyTransaction p ∈ s.gateway.begun ∧ EventPayload.ofJson p.body = .ok q ∧
      row = Account.insertedRow now q := by
    intro row hrow
    have ⟨d, hd, _, q, hq, he⟩ := (written_of_reachable hr).source row hrow
    have ⟨p, hp, hj⟩ := ((Sound.of_reachable hr).delivered d hd).submits hq
    exact ⟨p, q, d.now, List.mem_of_getElem? (Gateway.State.submitted_eq_some.mp hp), hj, he⟩
  constructor
  case mp =>
    intro hm
    have ⟨row, hrow, he⟩ := List.mem_map.mp hm
    have ⟨p, q, now, hb, hq, hw⟩ := hsource row hrow
    exact ⟨p, q, hb, hq, he ▸ hw ▸ rfl⟩
  case mpr =>
    intro ⟨p, q, hb, hq, he⟩
    have ⟨_, hg, hsame⟩ := h.recorded hr hb
    have ⟨q', hq', ⟨row, _, hf, _⟩, _⟩ := taken_of_recorded hr hg hsame
    cases hq.symm.trans hq'
    have ⟨hrow, hid⟩ := Table.find?_eq_some.mp hf
    have ⟨p', q', now, hb', hq', hw⟩ := hsource row hrow
    subst hw
    have hid : q'.eventId = q.eventId := hid
    have hid : p'.eventId = p.eventId := by
      have ⟨_, _, _, _, hw⟩ := EventPayload.ofJson_body_iff.mp hq
      have ⟨_, _, _, _, hw'⟩ := EventPayload.ofJson_body_iff.mp hq'
      subst hw hw'
      exact hid
    cases hd p' p hb' hb hid
    cases hq.symm.trans hq'
    exact List.mem_map.mpr ⟨_, hrow, he⟩

-- The two services show the same, apart from the times at which they have recorded it.
structure Alike (s t : State) : Prop where
  events : (Gateway.facts s.gateway.events).Perm (Gateway.facts t.gateway.events)
  transactions :
    (Account.facts s.account.transactions).Perm (Account.facts t.account.transactions)
  lists : ∀ order order' accountId,
    (Gateway.listRows order s.gateway.events accountId).map (·.toPayloadColumns) =
    (Gateway.listRows order' t.gateway.events accountId).map (·.toPayloadColumns)
  histories : ∀ order order' accountId limit,
    (Account.history order s.account.transactions accountId limit).map (·.toPayloadColumns) =
    (Account.history order' t.account.transactions accountId limit).map (·.toPayloadColumns)
  balances : ∀ accountId, Account.exactBalance s.account.transactions accountId =
    Account.exactBalance t.account.transactions accountId

theorem settled_of_answers {answers : List (ℕ × ℕ)}
    (he : (s.gateway.answers.map fun a => (a.handler, a.reply.status)) = answers)
    (h : ∀ p, .applyTransaction p ∈ s.gateway.begun →
      ∃ id, (id, 201) ∈ answers ∧ s.gateway.submitted id = some p) : Settled s := by
  intro p hp
  have ⟨id, hm, hsub⟩ := h p hp
  have ⟨answer, ha, heq⟩ := List.mem_map.mp (he ▸ hm)
  have ⟨hi, hst⟩ := Prod.mk.inj heq
  exact ⟨answer, ha, hi ▸ hsub, hst ▸ by decide⟩

-- Once all submissions have been answered with success, nothing can be seen of the run that has led
-- there: the order of the submissions, attempts, losses, late deliveries and restarts.
theorem runs_converge (hs : (machine client).Reachable s) (ht : (machine client').Reachable t)
    (hss : Settled s) (hst : Settled t) (hd : Distinct s)
    (hb : ∀ p, .applyTransaction p ∈ s.gateway.begun ↔ .applyTransaction p ∈ t.gateway.begun) :
    Alike s t := by
  have hdt : Distinct t := fun p q hp hq => hd p q ((hb p).mpr hp) ((hb q).mpr hq)
  have he : (Gateway.facts s.gateway.events).Perm (Gateway.facts t.gateway.events) := by
    apply (List.perm_ext_iff_of_nodup (Gateway.facts_eventIds _).of_map
      (Gateway.facts_eventIds _).of_map).mpr
    intro columns
    rw [hss.mem_events hd hs, hst.mem_events hdt ht]
    simp only [hb]
  have hr : (Account.facts s.account.transactions).Perm
      (Account.facts t.account.transactions) := by
    apply (List.perm_ext_iff_of_nodup (Account.facts_nodup _) (Account.facts_nodup _)).mpr
    intro columns
    rw [hss.mem_transactions hd hs, hst.mem_transactions hdt ht]
    simp only [hb]
  exact ⟨he, hr, fun _ _ _ => Gateway.listRows_congr _ _ he,
    fun _ _ _ _ => Account.history_congr _ _ hr, Account.exactBalance_congr hr⟩

theorem runs_converge_repeated : ∃ s t, (machine .default).run (recordingRun .sample) = some s ∧
    (machine .default).run repeatedRun = some t ∧ Alike s t := by
  have hs : ((machine .default).run (recordingRun .sample)).map (fun s =>
      s.gateway.answers.map fun a => (a.handler, a.reply.status)) = some [(0, 201)] := by
    decide +kernel
  have ht : ((machine .default).run repeatedRun).map (fun s =>
      s.gateway.answers.map fun a => (a.handler, a.reply.status)) = some [(0, 503), (1, 201)] := by
    decide +kernel
  have ⟨s, hs, has⟩ := Option.map_eq_some_iff.mp hs
  have ⟨t, ht, hat⟩ := Option.map_eq_some_iff.mp ht
  have hbs : s.gateway.begun = [.applyTransaction .sample] := begun_of_runFrom hs
  have hbt : t.gateway.begun = [.applyTransaction .sample, .applyTransaction .sample] :=
    begun_of_runFrom ht
  refine ⟨s, t, hs, ht, runs_converge ⟨_, hs⟩ ⟨_, ht⟩
    (settled_of_answers has fun p hp => ⟨0, by simp, ?_⟩)
    (settled_of_answers hat fun p hp => ⟨1, by simp, ?_⟩) ?_ (by simp [hbs, hbt])⟩
  case refine_1 =>
    rw [hbs, List.mem_singleton] at hp
    exact Gateway.State.submitted_eq_some.mpr (hbs ▸ hp ▸ rfl)
  case refine_2 =>
    have hp : .applyTransaction p = Gateway.Operation.applyTransaction .sample := by
      simpa [hbt] using hp
    exact Gateway.State.submitted_eq_some.mpr (hbt ▸ hp ▸ rfl)
  case refine_3 =>
    intro p q hp hq _
    rw [hbs, List.mem_singleton] at hp hq
    exact Gateway.Operation.applyTransaction.inj (hp.trans hq.symm)

end System
