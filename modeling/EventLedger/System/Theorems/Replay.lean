import EventLedger.Account.Theorems.Invariant
import EventLedger.Gateway.Theorems.History
import EventLedger.System.Theorems.Invariant

-- What a repository has recorded, it recognises ever after.
namespace Account

variable {order order' : RowOrder TransactionRow} {now now' : Civil} {p : EventPayload}
variable {t u v : Transactions} {r : TransactionRecord}

theorem sameFacts_of_recorded (h : applyTransaction order now p t = (.ok (r, true), u)) :
    r.toEventPayload.SameFacts p := by
  have hp := applyTransaction_put order now p t
  rw [h] at hp
  obtain ⟨row, _, hr, _, he⟩ := hp.find?_of_ok
  obtain ⟨_, rfl⟩ := transactionFromRow_inserted_iff.mp (he rfl ▸ Except.mapError_eq_ok hr)
  exact p.stored_sameFacts

theorem applyTransaction_recognised (h : applyTransaction order now p t = (.ok (r, true), u))
    (he : u.Extends v) : applyTransaction order' now' p v = (.ok (r, false), v) := by
  have hp := applyTransaction_put order now p t
  rw [h] at hp
  have hs := sameEvent_iff.mpr (sameFacts_of_recorded h)
  have ⟨hx, hv⟩ := hp.recognised he (applyTransaction_put order' now' p v) rfl rfl hs
  exact Prod.ext hx hv

end Account

namespace Gateway

variable {now now' : Civil} {p : EventPayload} {t u v : Events} {r : EventRecord}

theorem sameFacts_of_recorded (h : insertAppliedEvent now p t = (.ok (r, true), u)) :
    r.toEventPayload.SameFacts p := by
  have hp := insertAppliedEvent_put now p t
  rw [h] at hp
  obtain ⟨row, _, hr, _, he⟩ := hp.find?_of_ok
  obtain ⟨_, rfl⟩ := eventFromRow_inserted_iff.mp (he rfl ▸ Except.mapError_eq_ok hr)
  exact p.stored_sameFacts

theorem insertAppliedEvent_recognised (h : insertAppliedEvent now p t = (.ok (r, true), u))
    (he : u.Extends v) : insertAppliedEvent now' p v = (.ok (r, false), v) := by
  have hp := insertAppliedEvent_put now p t
  rw [h] at hp
  have hs := Repository.sameEvent_iff.mpr (sameFacts_of_recorded h)
  have ⟨hx, hv⟩ := hp.recognised he (insertAppliedEvent_put now' p v) rfl rfl hs
  exact Prod.ext hx hv

end Gateway

namespace System

-- The text of a time in UTC determines it, so that the three copies of `_same_event` agree, and
-- what a handler decides before its downstream call is what the repository decides after it.
theorem sameEvent_agrees (existing incoming : EventPayload) :
    Gateway.Repository.sameEvent existing incoming = Gateway.sameEvent existing incoming ∧
    Account.sameEvent existing incoming = Gateway.sameEvent existing incoming ∧
    ∀ now t record, Gateway.getEvent t incoming.eventId = .ok (some record) →
      record.toEventPayload = existing → Gateway.insertAppliedEvent now incoming t =
        (if Gateway.sameEvent existing incoming then .ok (record, false)
          else .error (.duplicateEventConflict incoming.eventId), t) := by
  have hg : Gateway.Repository.sameEvent existing incoming = Gateway.sameEvent existing incoming :=
    Bool.eq_iff_iff.mpr (Gateway.Repository.sameEvent_iff.trans Gateway.sameEvent_iff.symm)
  have ha : Account.sameEvent existing incoming = Gateway.sameEvent existing incoming :=
    Bool.eq_iff_iff.mpr (Account.sameEvent_iff.trans Gateway.sameEvent_iff.symm)
  refine ⟨hg, ha, fun now t record hr he => ?_⟩
  subst he
  simp only [Gateway.insertAppliedEvent, hr, hg]
  split <;> rfl

variable {client : Gateway.Client} {s : State}

-- In a run every event of the Gateway can be read, so that its histories are in the order of time
-- just if no two events of an account split a second.
theorem Sound.history_iff (h : Sound client s) (order : RowOrder Gateway.EventRow)
    (accountId : Text) :
    (∃ records, Gateway.listEventsForAccount order s.gateway.events accountId = .ok records ∧
      Gateway.History s.gateway.events accountId records) ↔
    ∀ q ∈ Gateway.accountRows s.gateway.events accountId,
      ∀ r ∈ Gateway.accountRows s.gateway.events accountId, ¬q.SplitsSecond r.toPayloadColumns := by
  have hw : Gateway.Written s.gateway.events := fun row hr =>
    have ⟨now, event, he, _⟩ := h.recorded row hr
    ⟨now, event, he⟩
  rw [hw.history_iff order accountId]
  refine forall₂_congr fun row hr => and_iff_right ?_
  obtain ⟨now, event, rfl, ha⟩ := h.recorded row (Gateway.mem_accountRows.mp hr).1
  exact length_of_accepted ha

-- The record that the first call returns has the facts of the payload, and every later call with it
-- returns this record and leaves the table as it is.
theorem replay_recognised :
    (∀ (calls : List Account.Call) order now p r u,
      Account.applyTransaction order now p (Account.after calls) = (.ok (r, true), u) →
      r.toEventPayload.SameFacts p ∧ ∀ (more : List Account.Call) order' now',
        Account.applyTransaction order' now' p (more.foldl Account.Call.apply u) =
          (.ok (r, false), more.foldl Account.Call.apply u)) ∧
    (∀ (calls : List Gateway.Call) now p r u,
      Gateway.insertAppliedEvent now p (Gateway.after calls) = (.ok (r, true), u) →
      r.toEventPayload.SameFacts p ∧ ∀ (more : List Gateway.Call) now',
        Gateway.insertAppliedEvent now' p (more.foldl Gateway.Call.apply u) =
          (.ok (r, false), more.foldl Gateway.Call.apply u)) := by
  constructor
  case left =>
    intro calls order now p r u h
    exact ⟨Account.sameFacts_of_recorded h, fun more _ _ =>
      Account.applyTransaction_recognised h (Account.foldl_extends u more)⟩
  case right =>
    intro calls now p r u h
    exact ⟨Gateway.sameFacts_of_recorded h, fun more _ =>
      Gateway.insertAppliedEvent_recognised h (Gateway.foldl_extends u more)⟩

-- A conflicting payload and another event come between the two calls.
theorem replay_recognised_sample :
    let p := EventPayload.sample
    let now := p.eventTimestamp
    let posts : List Account.Call := [⟨.inserted, now, .wideCredit⟩, ⟨.reversed, now, .sampleDebit⟩]
    let events : List Gateway.Call := [⟨now, .wideCredit⟩, ⟨now, .sampleDebit⟩]
    (∃ r u, Account.applyTransaction .inserted now p (Account.after []) = (.ok (r, true), u) ∧
      r.toEventPayload.SameFacts p ∧ (posts.foldl Account.Call.apply u).rows.length = 2 ∧
      Account.applyTransaction .inserted now p (posts.foldl Account.Call.apply u) =
        (.ok (r, false), posts.foldl Account.Call.apply u)) ∧
    (∃ r u, Gateway.insertAppliedEvent now p (Gateway.after []) = (.ok (r, true), u) ∧
      r.toEventPayload.SameFacts p ∧ (events.foldl Gateway.Call.apply u).rows.length = 2 ∧
      Gateway.insertAppliedEvent now p (events.foldl Gateway.Call.apply u) =
        (.ok (r, false), events.foldl Gateway.Call.apply u)) := by
  intro p now posts events
  constructor
  case left =>
    have hp := (Account.applyTransaction_put .inserted now p (Account.after [])).of_fresh rfl rfl
      (b := Account.storedRecord now p)
      (congrArg (Except.mapError _) (Account.transactionFromRow_inserted rfl))
    have h : Account.applyTransaction .inserted now p (Account.after []) =
        (.ok (Account.storedRecord now p, true),
          (Account.applyTransaction .inserted now p (Account.after [])).2) := Prod.ext hp.1 rfl
    have hl : (posts.foldl Account.Call.apply
        (Account.applyTransaction .inserted now p (Account.after [])).2).rows.length = 2 := by
      decide +kernel
    have hr := replay_recognised.1 _ _ _ _ _ _ h
    exact ⟨_, _, h, hr.1, hl, hr.2 posts .inserted now⟩
  case right =>
    have hp := (Gateway.insertAppliedEvent_put now p (Gateway.after [])).of_fresh rfl rfl
      (b := Gateway.storedRecord now p)
      (congrArg (Except.mapError _) (Gateway.eventFromRow_inserted rfl))
    have h : Gateway.insertAppliedEvent now p (Gateway.after []) =
        (.ok (Gateway.storedRecord now p, true),
          (Gateway.insertAppliedEvent now p (Gateway.after [])).2) := Prod.ext hp.1 rfl
    have hl : (events.foldl Gateway.Call.apply
        (Gateway.insertAppliedEvent now p (Gateway.after [])).2).rows.length = 2 := by
      decide +kernel
    have hr := replay_recognised.2 _ _ _ _ _ h
    exact ⟨_, _, h, hr.1, hl, hr.2 events now⟩

end System
