import EventLedger.Account.Theorems.Store

namespace Account

variable {order : RowOrder TransactionRow} {now : Civil} {event : EventPayload} {t u : Transactions}
variable {call : Call} {calls : List Call} {accountId : Text}

-- What every table that the service has written satisfies.
structure Consistent (t : Transactions) : Prop where
  written : ∀ row ∈ t.rows, ∃ now event, row = insertedRow now event
  currency : ∀ r ∈ t.rows, ∀ s ∈ t.rows, r.accountId = s.accountId → r.currency = s.currency

theorem accountCurrency_eq_none :
    accountCurrency order t accountId = none ↔ ∀ row ∈ t.rows, row.accountId ≠ accountId := by
  rw [accountCurrency, Option.map_eq_none_iff, List.head?_eq_none_iff,
    List.eq_nil_iff_forall_not_mem]
  simp only [Table.mem_select, decide_eq_true_eq, not_and]

theorem accountCurrency_eq_some (h : Consistent t) {currency : Text} :
    accountCurrency order t accountId = some currency ↔
    ∃ row ∈ t.rows, row.accountId = accountId ∧ row.currency = currency where
  mp hc := by
    have ⟨row, hr, he⟩ := Option.map_eq_some_iff.mp hc
    have ⟨hm, ha⟩ := Table.mem_select.mp (List.mem_of_head? hr)
    exact ⟨row, hm, of_decide_eq_true ha, he⟩
  mpr hr := by
    have ⟨row, hm, ha, he⟩ := hr
    cases hc : accountCurrency order t accountId
    case none => exact absurd ha (accountCurrency_eq_none.mp hc row hm)
    case some c =>
      have ⟨s, hs, hc⟩ := Option.map_eq_some_iff.mp hc
      have ⟨hsm, hsa⟩ := Table.mem_select.mp (List.mem_of_head? hs)
      have := h.currency s hsm row hm ((of_decide_eq_true hsa).trans ha.symm)
      rw [← hc, this, he]

-- The guard lets a payload pass when the currency that it finds is that of the payload.
theorem refuses_eq_none_iff : (store order now).refuses t event = none ↔
    ∀ currency, accountCurrency order t event.accountId = some currency →
      currency = event.currency := by
  rw [store, Option.map_eq_none_iff, Option.filter_eq_none_iff]
  simp

-- In a consistent table this is when every row of the account has it.
theorem refuses_eq_none (h : Consistent t) : (store order now).refuses t event = none ↔
    ∀ row ∈ t.rows, row.accountId = event.accountId → row.currency = event.currency := by
  rw [refuses_eq_none_iff]
  constructor
  case mp =>
    intro hc row hm ha
    exact hc _ <| (accountCurrency_eq_some h).mpr ⟨row, hm, ha, rfl⟩
  case mpr =>
    intro hr currency hc
    obtain ⟨row, hm, ha, he⟩ := (accountCurrency_eq_some h).mp hc
    exact he ▸ hr row hm ha

theorem Consistent.empty : Consistent .empty where
  written := by simp [Table.empty]
  currency := by simp [Table.empty]

-- A call appends the row of its payload or leaves the table as it is.
theorem apply_rows_cases (t : Transactions) (call : Call) : call.apply t = t ∨
    (t.find? call.event.eventId = none ∧ (store call.order call.now).refuses t call.event = none ∧
      (call.apply t).rows = t.rows ++ [insertedRow call.now call.event]) :=
  (applyTransaction_put ..).rows_cases

theorem Consistent.apply (h : Consistent t) (call : Call) : Consistent (call.apply t) := by
  cases apply_rows_cases t call
  case inl he => rwa [he]
  case inr he =>
    have ⟨_, hg, hu⟩ := he
    have hg := (refuses_eq_none h).mp hg
    constructor
    case written =>
      intro row hr
      rw [hu, List.mem_append, List.mem_singleton] at hr
      cases hr
      case inl hr => exact h.written row hr
      case inr hr => exact ⟨_, _, hr⟩
    case currency =>
      intro r hr s hs ha
      rw [hu, List.mem_append, List.mem_singleton] at hr hs
      cases hr <;> cases hs
      case inl.inl hr hs => exact h.currency r hr s hs ha
      case inl.inr hr hs => subst hs; exact hg r hr ha
      case inr.inl hr hs => subst hr; exact (hg s hs ha.symm).symm
      case inr.inr hr hs => rw [hr, hs]

theorem apply_extends (t : Transactions) (call : Call) : t.Extends (call.apply t) :=
  (applyTransaction_put ..).grows

theorem Consistent.foldl (h : Consistent t) (calls : List Call) :
    Consistent (calls.foldl Call.apply t) :=
  List.foldlRecOn calls Call.apply h fun _ ht call _ => ht.apply call

theorem consistent_after (calls : List Call) : Consistent (after calls) :=
  .foldl .empty calls

-- A call that raises an exception leaves the table as it is.
def Atomic (t : Transactions) (call : Call) : Prop :=
  ∀ e, (applyTransaction call.order call.now call.event t).1 = .error e → call.apply t = t

theorem Consistent.atomic_iff (h : Consistent t) : Atomic t call ↔
    call.event.currency.length = 3 ∨ (∃ row ∈ t.rows, row.eventId = call.event.eventId) ∨
      ∃ row ∈ t.rows,
        row.accountId = call.event.accountId ∧ row.currency ≠ call.event.currency := by
  have hp := applyTransaction_put call.order call.now call.event t
  have hk : (∃ row, t.find? call.event.eventId = some row) ↔
      ∃ row ∈ t.rows, row.eventId = call.event.eventId := by
    simp only [Table.find?_eq_some]
  have hg : (∃ e, (store call.order call.now).refuses t call.event = some e) ↔
      ∃ row ∈ t.rows,
        row.accountId = call.event.accountId ∧ row.currency ≠ call.event.currency := by
    rw [← Option.isSome_iff_exists, ← Option.ne_none_iff_isSome, ne_eq, refuses_eq_none h]
    push Not
    rfl
  have hr : (∃ b, (store call.order call.now).read (insertedRow call.now call.event) = .ok b) ↔
      call.event.currency.length = 3 := by
    constructor
    case mp =>
      rintro ⟨b, hb⟩
      exact (transactionFromRow_inserted_iff.mp (Except.mapError_eq_ok hb)).1
    case mpr =>
      intro hl
      exact ⟨storedRecord call.now call.event, by
        simp [store, transactionFromRow_inserted hl, Except.mapError]⟩
  have ha : Atomic t call ↔ _ := hp.atomic_iff
  rw [ha]
  exact (or_congr hk (or_congr hg hr)).trans (or_assoc.symm.trans or_comm)

theorem applyTransaction_atomic_iff (calls : List Call) (call : Call) :
    Atomic (after calls) call ↔
    call.event.currency.length = 3 ∨
      (∃ row ∈ (after calls).rows, row.eventId = call.event.eventId) ∨
      ∃ row ∈ (after calls).rows,
        row.accountId = call.event.accountId ∧ row.currency ≠ call.event.currency :=
  (consistent_after calls).atomic_iff

-- A credit in a currency whose upper case is SSAB.
def sharpCredit : EventPayload :=
  { EventPayload.sample with
    currency := "SSAB".toList
    currency_valid := ⟨"ßab".toList, .of_strip (by decide), rfl, by decide +kernel⟩ }

theorem applyTransaction_not_atomic : ¬∀ calls call, Atomic (after calls) call := by
  intro h
  have ha := Consistent.empty.atomic_iff.mp <|
    h [] ⟨.inserted, sharpCredit.eventTimestamp, sharpCredit⟩
  simp [Table.empty, sharpCredit] at ha

theorem foldl_extends (t : Transactions) (calls : List Call) :
    t.Extends (calls.foldl Call.apply t) :=
  List.foldlRecOn calls Call.apply (.refl t) fun _ ht call _ => ht.trans (apply_extends _ call)

theorem currency_ne_nil (h : Consistent t) {row : TransactionRow} (hr : row ∈ t.rows) :
    row.currency ≠ [] := by
  have ⟨_, event, he⟩ := h.written row hr
  have ⟨code, _, hl, hc⟩ := event.currency_valid
  subst he
  change event.currency ≠ []
  rw [hc]
  cases code
  case nil => simp at hl
  case cons c cs => simp [Text.upper, Text.upperChar_ne_nil]

-- The fold over rows of one currency reports it.
theorem foldlM_currency {currency : Text} (hn : currency ≠ []) {rows : List TransactionRow}
    (hr : ∀ row ∈ rows, row.currency = currency) {state result : Decimal × Option Text}
    (hs : state.2 = none ∨ state.2 = some currency)
    (h : rows.foldlM balanceStep state = .ok result) :
    result.2 = if rows = [] then state.2 else some currency := by
  induction rows generalizing state
  case nil => exact (Except.ok.inj h) ▸ rfl
  case cons row rows hi =>
    have ⟨next, hn', h⟩ := Except.bind_eq_ok h
    have he : next.2 = some currency := by
      have ⟨_, _, hn'⟩ := Except.bind_eq_ok hn'
      have ⟨_, _, hn'⟩ := Except.bind_eq_ok hn'
      rw [← Except.ok.inj hn']
      cases hs
      case inl hs => simp [hs, hr row]
      case inr hs => simp [hs, Option.filter, hn]
    have := hi (fun r hm => hr r (List.mem_cons_of_mem _ hm)) (.inr he) h
    simp [this, he]

-- The currency that a report gives for an account.
structure Reports (t : Transactions) (accountId : Text) (currency : Option Text) : Prop where
  none_iff : currency = none ↔ ∀ row ∈ t.rows, row.accountId ≠ accountId
  some_of_row : ∀ row ∈ t.rows, row.accountId = accountId → currency = some row.currency

theorem getBalance_reports (h : Consistent t) {response : BalanceResponse}
    (hb : getBalance order t accountId = .ok response) :
    Reports t accountId response.currency := by
  unfold getBalance at hb
  cases hf : (t.select order (·.accountId = accountId)).foldlM balanceStep (Decimal.zero, none)
  case error => simp [hf, Except.map] at hb
  case ok result =>
    have hc : response.currency = result.2 := by
      rw [hf, Except.map, Except.ok.injEq] at hb
      rw [← hb]
    have hm : ∀ row, row ∈ t.select order (·.accountId = accountId) ↔
        row ∈ t.rows ∧ row.accountId = accountId := by simp [Table.mem_select]
    cases hs : t.select order (·.accountId = accountId)
    case nil =>
      rw [hs] at hf hm
      have hr : result.2 = none := (Except.ok.inj hf) ▸ rfl
      have ha : ∀ row ∈ t.rows, row.accountId ≠ accountId := fun row hr ha =>
        List.not_mem_nil ((hm row).mpr ⟨hr, ha⟩)
      exact ⟨by simpa [hc, hr] using ha, fun row hr he => absurd he (ha row hr)⟩
    case cons row rows =>
      rw [hs] at hf hm
      have ⟨hr, ha⟩ := (hm row).mp List.mem_cons_self
      have hcs := foldlM_currency (currency_ne_nil h hr) (fun s hs =>
        h.currency s ((hm s).mp hs).1 row hr (((hm s).mp hs).2.trans ha.symm)) (.inl rfl) hf
      have hcs : response.currency = some row.currency := by simpa [hc] using hcs
      refine ⟨?_, fun s hs he => ?_⟩
      case refine_1 => simpa [hcs] using ⟨row, hr, ha⟩
      case refine_2 => rw [hcs, h.currency s hs row hr (he.trans ha.symm)]

theorem getAccountDetails_balance {limit : ℕ} {response : AccountDetailsResponse}
    (h : getAccountDetails order t accountId limit = .ok response) :
    getBalance order t accountId = .ok response.toBalanceResponse := by
  have ⟨balance, hb, h⟩ := Except.bind_eq_ok h
  have ⟨_, _, h⟩ := Except.bind_eq_ok h
  exact (Except.ok.inj h) ▸ hb

theorem getAccountDetails_history {limit : ℕ} {response : AccountDetailsResponse}
    (h : getAccountDetails order t accountId limit = .ok response) :
    (history order t accountId limit).mapM transactionFromRow =
      .ok response.recentTransactions := by
  have ⟨_, _, h⟩ := Except.bind_eq_ok h
  have ⟨_, hm, h⟩ := Except.bind_eq_ok h
  exact (Except.ok.inj h) ▸ Except.mapError_eq_ok hm

-- What a call does to a table: every row stays, and at most the row of its payload is added.
structure CallEffect (t : Transactions) (call : Call) : Prop where
  keeps : ∃ new, (call.apply t).rows = t.rows ++ new ∧ new.length ≤ 1 ∧
    ∀ row ∈ new, row.eventId = call.event.eventId ∧ row.accountId = call.event.accountId
  present : (∃ row ∈ t.rows, row.eventId = call.event.eventId) → call.apply t = t
  mismatch : (∃ row ∈ t.rows, row.accountId = call.event.accountId ∧
    row.currency ≠ call.event.currency) → call.apply t = t

theorem callEffect (h : Consistent t) (call : Call) : CallEffect t call where
  keeps := by
    cases apply_rows_cases t call
    case inl he => exact ⟨[], by simp [he]⟩
    case inr he => exact ⟨_, he.2.2, by simp, by simp [insertedRow, EventPayload.columns]⟩
  present hp := by
    obtain ⟨row, hr, he⟩ := hp
    exact (applyTransaction_put ..).eq_of_find? (Table.find?_eq_some.mpr ⟨hr, he⟩)
  mismatch hm := by
    obtain ⟨row, hr, ha, hc⟩ := hm
    cases apply_rows_cases t call
    case inl he => exact he
    case inr he => exact absurd ((refuses_eq_none h).mp he.2.1 row hr ha) hc

theorem applyTransaction_invariant (calls : List Call) :
    ((after calls).rows.map (·.eventId)).Nodup ∧
    (∀ call, CallEffect (after calls) call) ∧
    (∀ r ∈ (after calls).rows, ∀ s ∈ (after calls).rows,
      r.accountId = s.accountId → r.currency = s.currency) ∧
    (∀ order accountId response, getBalance order (after calls) accountId = .ok response →
      Reports (after calls) accountId response.currency) ∧
    (∀ order accountId limit response,
      getAccountDetails order (after calls) accountId limit = .ok response →
      Reports (after calls) accountId response.currency) :=
  have h := consistent_after calls
  ⟨(after calls).nodup, callEffect h, h.currency, fun _ _ _ => getBalance_reports h,
    fun _ _ _ _ hd => getBalance_reports h (getAccountDetails_balance hd)⟩

end Account
