import EventLedger.Common.Timeline
import EventLedger.Gateway.Theorems.Store

namespace Gateway

variable {order : RowOrder EventRow} {t : Events} {row : EventRow} {accountId : Text}
variable {call : Call} {calls : List Call}

-- Every row of the table has been written by the repository.
def Written (t : Events) : Prop :=
  ∀ row ∈ t.rows, ∃ now event, row = insertedRow now event

theorem Written.empty : Written .empty := by
  simp [Written, Table.empty]

theorem apply_extends (t : Events) (call : Call) : t.Extends (call.apply t) :=
  (insertAppliedEvent_put ..).grows

theorem Written.apply (h : Written t) (call : Call) : Written (call.apply t) := by
  intro row hr
  rcases (insertAppliedEvent_put call.now call.event t).rows_cases with he | ⟨_, _, hu⟩
  case inl => exact h row (he ▸ hr)
  case inr =>
    have hr : row ∈ t.rows ++ [insertedRow call.now call.event] := hu ▸ hr
    rcases List.mem_append.mp hr with hr | hr
    case inl => exact h row hr
    case inr => exact ⟨_, _, List.mem_singleton.mp hr⟩

theorem written_after (calls : List Call) : Written (after calls) :=
  List.foldlRecOn calls Call.apply .empty fun _ ht call _ => ht.apply call

theorem foldl_extends (t : Events) (calls : List Call) :
    t.Extends (calls.foldl Call.apply t) :=
  List.foldlRecOn calls Call.apply (.refl t) fun _ ht call _ => ht.trans (apply_extends _ call)

def accountRows (t : Events) (accountId : Text) : List EventRow :=
  t.rows.filter (·.accountId = accountId)

theorem mem_accountRows :
    row ∈ accountRows t accountId ↔ row ∈ t.rows ∧ row.accountId = accountId := by
  simp [accountRows]

-- The whole history of an account: each of its rows once, in the order of time.
structure History (t : Events) (accountId : Text) (records : List EventRecord) : Prop where
  complete : ∃ rows, rows.Perm (accountRows t accountId) ∧
    List.Forall₂ (fun row record => eventFromRow row = .ok record) rows records
  ordered : records.Pairwise fun r s => r.toEventPayload.Earlier s.toEventPayload

theorem listRows_perm (order : RowOrder EventRow) (t : Events) (accountId : Text) :
    (listRows order t accountId).Perm (accountRows t accountId) :=
  (Table.orderBy_perm _).trans (order.perm _)

-- The rows of a query are those of some calls.
theorem Written.listRows (h : Written t) (order : RowOrder EventRow) (accountId : Text) :
    ∃ entries : List Call,
      entries.map (fun call => insertedRow call.now call.event) = listRows order t accountId := by
  refine List.exists_map_eq fun row hm => ?_
  have hm := (listRows_perm order t accountId).mem_iff.mp hm
  obtain ⟨now, event, he⟩ := h row (mem_accountRows.mp hm).1
  exact ⟨⟨now, event⟩, he.symm⟩

section Listed

variable {entries : List Call}
variable
  (he : entries.map (fun call => insertedRow call.now call.event) = listRows order t accountId)

include he

theorem listEventsForAccount_eq_ok {records : List EventRecord} :
    listEventsForAccount order t accountId = .ok records ↔
    (∀ call ∈ entries, call.event.currency.length = 3) ∧
      entries.map (fun call => storedRecord call.now call.event) = records := by
  rw [listEventsForAccount, ← he, Except.mapM_eq_ok_iff, List.forall₂_map_left_iff]
  simp only [eventFromRow_inserted_iff, List.forall₂_and_left]
  rw [← List.forall₂_map_left_iff, List.forall₂_eq_eq_eq]

theorem mem_listed {row : EventRow} : row ∈ accountRows t accountId ↔
    ∃ call ∈ entries, insertedRow call.now call.event = row := by
  rw [← (listRows_perm order t accountId).mem_iff, ← he, List.mem_map]

-- The payloads of a query are in the order of their columns, and have different ids.
theorem listed_sorted : (entries.map (·.event)).Pairwise fun p q =>
    p.columns.timeColumns ≤ q.columns.timeColumns := by
  have hs : (listRows order t accountId).Pairwise fun r s => listColumns r ≤ listColumns s :=
    Table.orderBy_sorted _
  rw [← he, List.pairwise_map] at hs
  exact List.pairwise_map.mpr hs

theorem listed_nodup : ((entries.map (·.event)).map (·.eventId)).Nodup := by
  have hn : ((listRows order t accountId).map (·.eventId)).Nodup :=
    ((Table.orderBy_perm _).map _).nodup_iff.mpr Table.select_nodup
  rw [← he, List.map_map] at hn
  rw [List.map_map]
  exact hn

theorem listed_history_iff :
    (∃ records, listEventsForAccount order t accountId = .ok records ∧
      History t accountId records) ↔
    (∀ call ∈ entries, call.event.currency.length = 3) ∧
      (entries.map (·.event)).Pairwise EventPayload.Earlier := by
  have hp : (entries.map fun call => storedRecord call.now call.event).Pairwise
      (fun r s => r.toEventPayload.Earlier s.toEventPayload) ↔
      (entries.map (·.event)).Pairwise EventPayload.Earlier := by
    simp only [List.pairwise_map]
    rfl
  constructor
  case mp =>
    rintro ⟨records, hl, hh⟩
    obtain ⟨hc, rfl⟩ := (listEventsForAccount_eq_ok he).mp hl
    exact ⟨hc, hp.mp hh.ordered⟩
  case mpr =>
    rintro ⟨hc, ho⟩
    have hl := (listEventsForAccount_eq_ok he).mpr ⟨hc, rfl⟩
    exact ⟨_, hl, ⟨_, listRows_perm order t accountId, Except.mapM_eq_ok_iff.mp hl⟩, hp.mpr ho⟩

end Listed

-- An account's list of events is its history just if its rows can be read and no two of them split
-- a second.
theorem Written.history_iff (h : Written t) (order : RowOrder EventRow) (accountId : Text) :
    (∃ records, listEventsForAccount order t accountId = .ok records ∧
      History t accountId records) ↔
    ∀ r ∈ accountRows t accountId, r.currency.length = 3 ∧
      ∀ s ∈ accountRows t accountId, ¬r.SplitsSecond s.toPayloadColumns := by
  obtain ⟨entries, he⟩ := h.listRows order accountId
  rw [listed_history_iff he, EventPayload.pairwise_earlier_iff (listed_sorted he) (listed_nodup he)]
  simp only [mem_listed he, List.forall_mem_map, forall_exists_index, and_imp,
    forall_apply_eq_imp_iff₂]
  have hs : ∀ p q : Call, (insertedRow p.now p.event).SplitsSecond
      (insertedRow q.now q.event).toPayloadColumns ↔
      Civil.SplitsSecond p.event.eventTimestamp q.event.eventTimestamp := fun p q =>
    EventPayload.splitsSecond_columns
  simp only [hs]
  exact forall₂_and.symm

theorem listEventsForAccount_history_iff (order : RowOrder EventRow) (calls : List Call)
    (accountId : Text) :
    (∃ records, listEventsForAccount order (after calls) accountId = .ok records ∧
      History (after calls) accountId records) ↔
    ∀ r ∈ accountRows (after calls) accountId, r.currency.length = 3 ∧
      ∀ s ∈ accountRows (after calls) accountId, ¬r.SplitsSecond s.toPayloadColumns :=
  (written_after calls).history_iff order accountId

-- A debit half a second after the sample.
def halfSecondLater : EventPayload :=
  { EventPayload.sampleDebit with
    eventTimestamp := { EventPayload.sample.eventTimestamp with
      micro := 500000, micro_lt := by decide } }

def splitCalls : List Call :=
  [.sample, halfSecondLater].map (⟨EventPayload.sample.eventTimestamp, ·⟩)

theorem listEventsForAccount_not_history : ¬∀ order calls accountId, ∃ records,
    listEventsForAccount order (after calls) accountId = .ok records ∧
      History (after calls) accountId records := by
  intro h
  have hr : accountRows (after splitCalls) EventPayload.sample.accountId =
      splitCalls.map fun call => insertedRow call.now call.event := by decide +kernel
  have hs := ((written_after splitCalls).history_iff .inserted _).mp
    (h .inserted splitCalls EventPayload.sample.accountId)
  rw [hr] at hs
  have hn := (hs _ List.mem_cons_self).2 _ (List.mem_cons_of_mem _ List.mem_cons_self)
  exact hn (EventPayload.splitsSecond_columns.mpr ⟨rfl, by decide⟩)

end Gateway
