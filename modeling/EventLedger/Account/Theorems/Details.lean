import EventLedger.Account.Theorems.Range
import EventLedger.Common.Timeline

namespace Account

variable {order : RowOrder TransactionRow} {t : Transactions} {row : TransactionRow}
variable {accountId : Text} {limit : ℕ} {records : List TransactionRecord}

def accountTimes (t : Transactions) (accountId : Text) : List Civil :=
  (accountRows t accountId).filterMap fun row => (Time.parseTimestamp row.eventTimestamp).toOption

-- The last transactions of an account, in the order of time.
structure Recent (t : Transactions) (accountId : Text) (limit : ℕ)
    (records : List TransactionRecord) : Prop where
  stored : ∀ record ∈ records, ∃ row ∈ accountRows t accountId, transactionFromRow row = .ok record
  distinct : (records.map (·.eventId)).Nodup
  length : records.length = min limit (accountRows t accountId).length
  ordered : records.Pairwise fun r s => r.eventTimestamp.instant ≤ s.eventTimestamp.instant
  latest : ∀ record ∈ records, ∀ row ∈ accountRows t accountId,
    row.eventId ∉ records.map (·.eventId) →
    ∀ time, Time.parseTimestamp row.eventTimestamp = .ok time →
    time.instant ≤ record.eventTimestamp.instant

-- The rows of an account in the order of the query, without its limit.
def sortedRows (order : RowOrder TransactionRow) (t : Transactions) (accountId : Text) :
    List TransactionRow :=
  Table.orderBy historyColumns (t.select order (·.accountId = accountId))

theorem sortedRows_perm (order : RowOrder TransactionRow) (t : Transactions) (accountId : Text) :
    (sortedRows order t accountId).Perm (accountRows t accountId) :=
  (Table.orderBy_perm _).trans (order.perm _)

theorem parseTimestamp_insertedRow (call : Call) :
    Time.parseTimestamp (insertedRow call.now call.event).eventTimestamp =
      .ok call.event.eventTimestamp :=
  Time.parseTimestamp_formatUtc _

theorem filterMap_insertedRow (calls : List Call) :
    (calls.map fun call => insertedRow call.now call.event).filterMap
      (fun row => (Time.parseTimestamp row.eventTimestamp).toOption) =
    calls.map (·.event.eventTimestamp) := by
  rw [List.filterMap_map, ← List.filterMap_eq_map]
  refine congrArg (List.filterMap · calls) (funext fun call => ?_)
  rw [Function.comp_apply, parseTimestamp_insertedRow]
  rfl

theorem accountTimes_of_rows {calls : List Call} (h : accountRows t accountId =
    calls.map fun call => insertedRow call.now call.event) :
    accountTimes t accountId = calls.map (·.event.eventTimestamp) := by
  rw [accountTimes, h, filterMap_insertedRow]

section Sorted

variable {entries : List Call}
variable
  (he : entries.map (fun call => insertedRow call.now call.event) = sortedRows order t accountId)

include he

theorem mem_sorted {row : TransactionRow} : row ∈ accountRows t accountId ↔
    ∃ call ∈ entries, insertedRow call.now call.event = row := by
  rw [← (sortedRows_perm order t accountId).mem_iff, ← he, List.mem_map]

theorem sorted_times : (entries.map (·.event.eventTimestamp)).Perm (accountTimes t accountId) := by
  have hp := (sortedRows_perm order t accountId).filterMap fun row : TransactionRow =>
    (Time.parseTimestamp row.eventTimestamp).toOption
  rwa [← he, filterMap_insertedRow] at hp

theorem sorted_pairwise : (entries.map (·.event.eventTimestamp)).Pairwise fun a b =>
    Text.utf8 (Time.formatUtc a) ≤ Text.utf8 (Time.formatUtc b) := by
  have hs : (sortedRows order t accountId).Pairwise
      fun r s => historyColumns r ≤ historyColumns s :=
    Table.orderBy_sorted _
  rw [← he, List.pairwise_map] at hs
  refine List.pairwise_map.mpr (hs.imp fun {p q} h => ?_)
  have h : p.event.columns.timeColumns ≤ q.event.columns.timeColumns := h
  rcases EventPayload.timeColumns_le_iff.mp h with h | h
  case inl => exact h.le
  case inr => exact h.1 ▸ le_rfl

theorem sorted_nodup : (entries.map (·.event.eventId)).Nodup := by
  have hn : ((sortedRows order t accountId).map (·.eventId)).Nodup :=
    ((Table.orderBy_perm _).map _).nodup_iff.mpr Table.select_nodup
  rw [← he, List.map_map] at hn
  exact hn

theorem getAccountDetails_iff :
    (∃ response, getAccountDetails order t accountId limit = .ok response ∧
      response.recentTransactions = records) ↔
    (∃ balance, getBalance order t accountId = .ok balance) ∧
      (∀ call ∈ entries.take limit, call.event.currency.length = 3) ∧
      (entries.take limit).map (fun call => storedRecord call.now call.event) = records := by
  have hm : ((history order t accountId limit).mapM transactionFromRow).mapError
      ReadError.unreadable = .ok records ↔
      (∀ call ∈ entries.take limit, call.event.currency.length = 3) ∧
      (entries.take limit).map (fun call => storedRecord call.now call.event) = records := by
    rw [Except.mapError_eq_ok_iff, history, ← sortedRows, ← he, ← List.map_take,
      Except.mapM_eq_ok_iff, List.forall₂_map_left_iff]
    simp only [transactionFromRow_inserted_iff, List.forall₂_and_left]
    rw [← List.forall₂_map_left_iff, List.forall₂_eq_eq_eq]
  rw [← hm, getAccountDetails]
  constructor
  case mp =>
    rintro ⟨response, hr, rfl⟩
    obtain ⟨balance, hb, hr⟩ := Except.bind_eq_ok hr
    obtain ⟨shown, hs, hr⟩ := Except.bind_eq_ok hr
    cases hr
    exact ⟨⟨balance, hb⟩, hs⟩
  case mpr =>
    rintro ⟨⟨balance, hb⟩, hs⟩
    exact ⟨_, (Except.bind_of_ok hb).trans (Except.bind_of_ok hs), rfl⟩

theorem sorted_length : entries.length = (accountRows t accountId).length := by
  rw [← (sortedRows_perm order t accountId).length_eq, ← he, List.length_map]

-- All rows of an account have the currency of those that are shown.
theorem sorted_currency (hc : Consistent t) (hl : 1 ≤ limit) :
    (∀ call ∈ entries.take limit, call.event.currency.length = 3) ↔
    ∀ row ∈ accountRows t accountId, row.currency.length = 3 := by
  constructor
  case mp =>
    intro h row hr
    have hpos : 0 < (entries.take limit).length := by
      have := List.length_pos_of_mem hr
      rw [List.length_take, sorted_length he]
      omega
    obtain ⟨call, hm⟩ := List.exists_mem_of_length_pos hpos
    have hs := (mem_sorted he).mpr ⟨call, List.mem_of_mem_take hm, rfl⟩
    obtain ⟨hr, ha⟩ := List.mem_filter.mp hr
    obtain ⟨hs, hb⟩ := List.mem_filter.mp hs
    have heq := hc.currency row hr _ hs ((of_decide_eq_true ha).trans (of_decide_eq_true hb).symm)
    exact heq ▸ h call hm
  case mpr =>
    intro h call hm
    exact h _ ((mem_sorted he).mpr ⟨call, List.mem_of_mem_take hm, rfl⟩)

-- What is shown is what should be shown just if the first times are the latest.
theorem recent_iff (hc : ∀ call ∈ entries.take limit, call.event.currency.length = 3) :
    Recent t accountId limit
      ((entries.take limit).map fun call => storedRecord call.now call.event) ↔
    Civil.LatestFirst (entries.map (·.event.eventTimestamp)) limit := by
  have hta : entries.take limit ++ entries.drop limit = entries := List.take_append_drop ..
  have hids := sorted_nodup he
  rw [← hta, List.map_append, List.nodup_append] at hids
  have hord : (((entries.take limit).map fun call => storedRecord call.now call.event).Pairwise
      fun r s => r.eventTimestamp.instant ≤ s.eventTimestamp.instant) ↔
      ((entries.map (·.event.eventTimestamp)).take limit).Pairwise
        fun a b => a.instant ≤ b.instant := by
    rw [← List.map_take, List.pairwise_map, List.pairwise_map]
    rfl
  have hnames : ((entries.take limit).map fun call => storedRecord call.now call.event).map
      (·.eventId) = (entries.take limit).map (·.event.eventId) := by
    rw [List.map_map]
    rfl
  constructor
  case mp =>
    intro h
    refine ⟨hord.mp h.ordered, ?_⟩
    rw [← List.map_take, ← List.map_drop]
    simp only [List.forall_mem_map]
    intro p hp q hq
    refine h.latest _ (List.mem_map_of_mem hp) (insertedRow q.now q.event)
      ((mem_sorted he).mpr ⟨q, List.mem_of_mem_drop hq, rfl⟩) ?_ _
      (parseTimestamp_insertedRow q)
    rw [hnames]
    exact fun hm => hids.2.2 _ hm _ (List.mem_map_of_mem hq) rfl
  case mpr =>
    intro h
    constructor
    case stored =>
      simp only [List.forall_mem_map]
      intro call hm
      exact ⟨_, (mem_sorted he).mpr ⟨call, List.mem_of_mem_take hm, rfl⟩,
        transactionFromRow_inserted_iff.mpr ⟨hc call hm, rfl⟩⟩
    case distinct => exact hnames ▸ hids.1
    case length => rw [List.length_map, List.length_take, sorted_length he]
    case ordered => exact hord.mpr h.ordered
    case latest =>
      rw [hnames]
      simp only [List.forall_mem_map]
      intro p hp row hr hn time ht
      obtain ⟨q, hq, rfl⟩ := (mem_sorted he).mp hr
      cases (parseTimestamp_insertedRow q).symm.trans ht
      rw [← hta] at hq
      rcases List.mem_append.mp hq with hq | hq
      case inl => exact absurd (List.mem_map_of_mem hq) hn
      case inr =>
        refine h.latest _ ?_ _ ?_
        case refine_1 => exact List.map_take ▸ List.mem_map_of_mem hp
        case refine_2 => exact List.map_drop ▸ List.mem_map_of_mem hq

end Sorted

theorem Consistent.exists_sorted (h : Consistent t) (order : RowOrder TransactionRow)
    (accountId : Text) : ∃ entries : List Call,
      entries.map (fun call => insertedRow call.now call.event) = sortedRows order t accountId :=
  h.exists_entries fun _ hm =>
    List.mem_of_mem_filter ((sortedRows_perm order t accountId).mem_iff.mp hm)

-- In one order of the rows: the balance can be read, the rows that are shown too, and either all of
-- them are shown and no two split a second, or all of them lie within one second.
theorem Consistent.recent_iff (h : Consistent t) (order : RowOrder TransactionRow)
    (accountId : Text) (hl : 1 ≤ limit) :
    (∃ response, getAccountDetails order t accountId limit = .ok response ∧
      Recent t accountId limit response.recentTransactions) ↔
    (∃ balance, getBalance order t accountId = .ok balance) ∧
      (∀ row ∈ accountRows t accountId, row.currency.length = 3) ∧
      ((accountTimes t accountId).length ≤ limit ∧
        (∀ a ∈ accountTimes t accountId, ∀ b ∈ accountTimes t accountId, ¬Civil.SplitsSecond a b) ∨
      Civil.OneSecond (accountTimes t accountId) limit) := by
  obtain ⟨entries, he⟩ := h.exists_sorted order accountId
  have hp := sorted_times he
  have hcur : (∀ call ∈ entries.take limit, call.event.currency.length = 3) ↔
      ∀ row ∈ accountRows t accountId, row.currency.length = 3 := sorted_currency he h hl
  have hshow := Civil.latestFirst_iff (sorted_pairwise he) hl
  rw [Civil.oneSecond_perm hp, hp.length_eq] at hshow
  simp only [hp.mem_iff] at hshow
  rw [← hcur, ← hshow]
  constructor
  case mp =>
    rintro ⟨response, hr, hrec⟩
    obtain ⟨hb, hc, hs⟩ := (getAccountDetails_iff he).mp ⟨response, hr, rfl⟩
    exact ⟨hb, hc, (Account.recent_iff he hc).mp (hs ▸ hrec)⟩
  case mpr =>
    rintro ⟨hb, hc, hf⟩
    obtain ⟨response, hr, hs⟩ := (getAccountDetails_iff he).mpr ⟨hb, hc, rfl⟩
    exact ⟨response, hr, hs ▸ (Account.recent_iff he hc).mpr hf⟩

-- The details of an account show its last transactions in every order of the rows just if its
-- amounts stay in range, its rows can be read, and the limit and the seconds do no harm.
theorem getAccountDetails_recent_iff (calls : List Call) (accountId : Text) (limit : ℕ)
    (hl : 1 ≤ limit) :
    (∀ order, ∃ response, getAccountDetails order (after calls) accountId limit = .ok response ∧
      Recent (after calls) accountId limit response.recentTransactions) ↔
    InRange (amounts (accountRows (after calls) accountId)) ∧
    (∀ row ∈ accountRows (after calls) accountId, row.currency.length = 3) ∧
      ((accountTimes (after calls) accountId).length ≤ limit ∧
        (∀ a ∈ accountTimes (after calls) accountId, ∀ b ∈ accountTimes (after calls) accountId,
          ¬Civil.SplitsSecond a b) ∨
      Civil.OneSecond (accountTimes (after calls) accountId) limit) := by
  have h := consistent_after calls
  rw [← h.getBalance_returns_iff, ← forall_and_right]
  exact forall_congr' fun order => h.recent_iff order accountId hl

theorem minuteId_stripped : ∀ minute : Fin 60,
    Text.Stripped ("evt-".toList ++ Text.padded 2 minute) := by
  have h : ∀ minute : Fin 60, Text.strip ("evt-".toList ++ Text.padded 2 minute) =
      "evt-".toList ++ Text.padded 2 minute := by decide +kernel
  exact fun minute => .of_strip (h minute)

-- A credit in some minute of one hour.
def minuteCredit (minute : Fin 60) : EventPayload :=
  { EventPayload.sample with
    eventId := "evt-".toList ++ Text.padded 2 minute
    eventTimestamp := { EventPayload.sample.eventTimestamp with
      minute, minute_lt := minute.isLt }
    eventId_valid := ⟨by simp, minuteId_stripped minute⟩ }

-- Credits in the first minutes of one hour.
def minuteCalls (count : ℕ) : List Call :=
  ((List.finRange 60).take count).map
    (⟨.inserted, EventPayload.sample.eventTimestamp, minuteCredit ·⟩)

theorem getAccountDetails_recent_two :
    ∃ response, getAccountDetails .inserted (after (minuteCalls 2)) EventPayload.sample.accountId
      defaultLimit = .ok response ∧ Recent (after (minuteCalls 2)) EventPayload.sample.accountId
        defaultLimit response.recentTransactions := by
  have hr : accountRows (after (minuteCalls 2)) EventPayload.sample.accountId =
      (minuteCalls 2).map fun call => insertedRow call.now call.event := by decide +kernel
  refine (getAccountDetails_recent_iff (minuteCalls 2) _ _ (by decide)).mpr
    ⟨?_, ?_, .inl ?_⟩ .inserted
  case refine_1 =>
    rw [hr]
    decide +kernel
  case refine_2 =>
    rw [hr]
    decide +kernel
  case refine_3 =>
    rw [accountTimes_of_rows hr]
    have hz : ∀ a ∈ (minuteCalls 2).map (·.event.eventTimestamp), a.micro = 0 := by
      rw [minuteCalls, List.map_map, List.forall_mem_map]
      exact fun _ _ => rfl
    exact ⟨by decide +kernel, fun a ha b hb hs => hs.2 (iff_of_true (hz a ha) (hz b hb))⟩

-- Of 26 transactions the latest is left out.
theorem getAccountDetails_not_recent : ¬∀ order calls accountId limit, 1 ≤ limit →
    ∃ response, getAccountDetails order (after calls) accountId limit = .ok response ∧
      Recent (after calls) accountId limit response.recentTransactions := by
  intro h
  have hr : accountRows (after (minuteCalls 26)) EventPayload.sample.accountId =
      (minuteCalls 26).map fun call => insertedRow call.now call.event := by decide +kernel
  have hl : 1 ≤ defaultLimit := by decide
  obtain ⟨_, _, h⟩ := ((consistent_after (minuteCalls 26)).recent_iff .inserted _ hl).mp
    (h .inserted (minuteCalls 26) EventPayload.sample.accountId defaultLimit hl)
  rw [accountTimes_of_rows hr] at h
  rcases h with h | h
  case inl => exact absurd h.1 (by decide +kernel)
  case inr =>
    have hw : ∀ a ∈ (minuteCalls 26).map (·.event.eventTimestamp.wholeSecond),
        ∀ b ∈ (minuteCalls 26).map (·.event.eventTimestamp.wholeSecond), a = b := by
      simpa [List.forall_mem_map] using h.1
    exact absurd hw (by decide +kernel)

end Account
