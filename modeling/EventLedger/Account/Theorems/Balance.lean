import EventLedger.Account.Theorems.Invariant
import Mathlib.Algebra.BigOperators.Group.List.Basic

namespace Account

open Decimal

variable {order : RowOrder TransactionRow} {t : Transactions} {accountId : Text}
variable {row : TransactionRow} {rows : List TransactionRow}

-- What a row adds to the balance, as a rational number.
def exactAmount (row : TransactionRow) : ℚ :=
  match row.readAmount with
  | .ok amount =>
    if row.eventType = TransactionType.credit.value then amount.value else -amount.value
  | .error _   => 0

def accountRows (t : Transactions) (accountId : Text) : List TransactionRow :=
  t.rows.filter (·.accountId = accountId)

-- The credits minus the debits.
def exactBalance (t : Transactions) (accountId : Text) : ℚ :=
  ((accountRows t accountId).map exactAmount).sum

-- Whether the context can hold the sum of every collection of some of the rows.
def SumsFit (rows : List TransactionRow) : Prop :=
  ∀ part : List TransactionRow, part.Subperm rows → Fits context (part.map exactAmount).sum

def ExactBalance (t : Transactions) (accountId : Text) : Prop :=
  ∀ order, ∃ response, getBalance order t accountId = .ok response ∧
    response.balance.value = exactBalance t accountId

theorem SumsFit.of_subperm {rows' : List TransactionRow} (h : SumsFit rows)
    (hs : rows'.Subperm rows) : SumsFit rows' :=
  fun part hp => h part (hp.trans hs)

theorem readAmount_written (h : Consistent t) (hr : row ∈ t.rows) :
    ∃ amount, row.readAmount = .ok amount := by
  have ⟨now, event, he⟩ := h.written row hr
  subst he
  exact ⟨event.amount, by
    simp [PayloadColumns.readAmount, insertedRow, EventPayload.columns, ofText_str]⟩

theorem ReadError.ofResult_eq_ok {x : Option Decimal} {d : Decimal} :
    ReadError.ofResult x = .ok d ↔ x = some d := by
  cases x <;> simp [ReadError.ofResult]

theorem signedAmount_of_readAmount {amount : Decimal} (h : row.readAmount = .ok amount) :
    signedAmount row = if row.eventType = TransactionType.credit.value then .ok amount else
      ReadError.ofResult (minus context amount) := by
  rw [signedAmount, h]
  rfl

theorem signedAmount_exact (h : ∃ amount, row.readAmount = .ok amount)
    (hf : Fits context (exactAmount row)) :
    ∃ signed, signedAmount row = .ok signed ∧ signed.value = exactAmount row := by
  have ⟨amount, ha⟩ := h
  simp only [exactAmount, ha] at hf ⊢
  rw [signedAmount_of_readAmount ha]
  split_ifs at hf ⊢
  case pos => exact ⟨amount, rfl, rfl⟩
  case neg =>
    have ⟨signed, hs, hv⟩ := minus_eq_iff.mpr hf
    exact ⟨signed, ReadError.ofResult_eq_ok.mpr hs, hv⟩

theorem balanceStep_exact (h : ∃ amount, row.readAmount = .ok amount)
    (hf : Fits context (exactAmount row)) {state : Decimal × Option Text}
    (hs : Fits context (state.1.value + exactAmount row)) :
    ∃ next, balanceStep state row = .ok next ∧
      next.1.value = state.1.value + exactAmount row := by
  have ⟨signed, ha, hv⟩ := signedAmount_exact h hf
  have ⟨balance, hb, hsum⟩ := add_eq_iff.mpr (hv ▸ hs)
  refine ⟨(balance, (state.2.filter (· ≠ [])).or (some row.currency)), ?_, hv ▸ hsum⟩
  rw [balanceStep, Except.bind_of_ok ha, Except.bind_of_ok (ReadError.ofResult_eq_ok.mpr hb)]
  rfl

-- The fold is exact when every partial sum fits; `seen` are the rows that it has summed before.
theorem foldlM_exact (seen : List TransactionRow) (h : SumsFit (seen ++ rows))
    {state : Decimal × Option Text} (hs : state.1.value = (seen.map exactAmount).sum)
    (hr : ∀ row ∈ rows, ∃ amount, row.readAmount = .ok amount) :
    ∃ result, rows.foldlM balanceStep state = .ok result ∧
      result.1.value = ((seen ++ rows).map exactAmount).sum := by
  induction rows generalizing seen state
  case nil => exact ⟨state, rfl, by simpa using hs⟩
  case cons row rows hi =>
    have hrow : Fits context (exactAmount row) := by
      simpa using h [row] (List.singleton_subperm_iff.mpr (by simp))
    have hsum : Fits context (state.1.value + exactAmount row) := by
      have := h (seen ++ [row]) (List.Sublist.subperm (by simp))
      simpa [hs] using this
    have ⟨next, hn, hv⟩ := balanceStep_exact (hr row List.mem_cons_self) hrow hsum
    have hnext : next.1.value = ((seen ++ [row]).map exactAmount).sum := by simp [hv, hs]
    have ⟨result, hf, he⟩ := hi (seen ++ [row]) (by simpa using h) hnext
      (fun r hm => hr r (List.mem_cons_of_mem _ hm))
    exact ⟨result, by rw [List.foldlM_cons, Except.bind_of_ok hn, hf], by simpa using he⟩

-- The context can hold whatever the fold of one row or more returns.
theorem foldlM_fits (hn : rows ≠ []) {state result : Decimal × Option Text}
    (hf : rows.foldlM balanceStep state = .ok result) : Fits context result.1.value := by
  induction rows generalizing state
  case nil => exact absurd rfl hn
  case cons row rows hi =>
    have ⟨next, hs, hf⟩ := Except.bind_eq_ok hf
    cases rows
    case nil =>
      have ⟨_, _, hs⟩ := Except.bind_eq_ok hs
      have ⟨balance, hb, hs⟩ := Except.bind_eq_ok hs
      rw [← Except.ok.inj hf, ← Except.ok.inj hs]
      exact add_fits (ReadError.ofResult_eq_ok.mp hb)
    case cons r rows => exact hi (by simp) hf

theorem select_perm (order : RowOrder TransactionRow) (t : Transactions) (accountId : Text) :
    (t.select order (·.accountId = accountId)).Perm (accountRows t accountId) :=
  order.perm _

theorem readAmount_selected (h : Consistent t) (order : RowOrder TransactionRow)
    (accountId : Text) :
    ∀ row ∈ t.select order (·.accountId = accountId), ∃ amount, row.readAmount = .ok amount :=
  fun _ hr => readAmount_written h (Table.mem_select.mp hr).1

theorem getBalance_of_foldlM {result : Decimal × Option Text}
    (h : (t.select order (·.accountId = accountId)).foldlM balanceStep (Decimal.zero, none) =
      .ok result) : ∃ response, getBalance order t accountId = .ok response ∧
        response.balance = result.1 :=
  ⟨_, by rw [getBalance, h]; rfl, rfl⟩

theorem exactBalance_of_sumsFit (h : Consistent t) (hs : SumsFit (accountRows t accountId)) :
    ExactBalance t accountId := by
  intro order
  have hp := select_perm order t accountId
  have hr := readAmount_selected h order accountId
  have hz : (Decimal.zero, (none : Option Text)).1.value =
      (([] : List TransactionRow).map exactAmount).sum := by simp
  have ⟨result, hf, he⟩ := foldlM_exact [] (hs.of_subperm hp.subperm) hz hr
  have ⟨response, hb, hv⟩ := getBalance_of_foldlM hf
  exact ⟨response, hb, by rw [hv, he, exactBalance]; exact (hp.map exactAmount).sum_eq⟩

-- Some of the rows of a table, inserted alone by the calls that had inserted them.
theorem after_rows {part : List TransactionRow} (h : Consistent t) (hp : part ⊆ t.rows)
    (hn : (part.map (·.eventId)).Nodup) : ∃ calls, (after calls).rows = part := by
  induction part using List.reverseRecOn
  case nil => exact ⟨[], rfl⟩
  case append_singleton part row hi =>
    rw [List.map_append, List.nodup_append] at hn
    have ⟨calls, hc⟩ := hi (fun r hr => hp (by simp [hr])) hn.1
    have hrow : row ∈ t.rows := hp (by simp)
    have ⟨now, event, he⟩ := h.written row hrow
    have hf : (after calls).find? event.eventId = none := by
      refine Table.find?_eq_none.mpr fun r hr heq => ?_
      rw [hc] at hr
      exact hn.2.2 r.eventId (List.mem_map_of_mem hr) row.eventId (by simp) (by rw [heq, he]; rfl)
    have hg : (store .inserted now).refuses (after calls) event = none := by
      refine (refuses_eq_none (consistent_after calls)).mpr fun r hr ha => ?_
      rw [hc] at hr
      have := h.currency r (hp (by simp [hr])) row hrow (by rw [ha, he]; rfl)
      rw [this, he]
      rfl
    have hu := (applyTransaction_put .inserted now event (after calls)).rows_of_fresh hf hg
    have ha : after (calls ++ [⟨.inserted, now, event⟩]) =
        Call.apply (after calls) ⟨.inserted, now, event⟩ := by simp [after]
    exact ⟨_, by rw [ha, Call.apply, hu, hc, he]; rfl⟩

-- A balance that is exact in every state of some events, delivered in any order, has sums that fit.
theorem sumsFit_of_exactBalance (h : Consistent t)
    (he : ∀ calls, (after calls).rows ⊆ t.rows → ExactBalance (after calls) accountId) :
    SumsFit (accountRows t accountId) := by
  intro part hp
  by_cases hn : part = []
  case pos => exact hn ▸ Fits.zero
  case neg =>
    have ha : ∀ row ∈ part, row ∈ t.rows ∧ row.accountId = accountId := fun row hr => by
      simpa [accountRows] using hp.subset hr
    have hk : (part.map (·.eventId)).Nodup := by
      have ⟨l, hl, hs⟩ := hp
      exact (hl.map _).nodup_iff.mp (t.nodup.sublist ((hs.trans List.filter_sublist).map _))
    have ⟨calls, hc⟩ := after_rows h (fun row hr => (ha row hr).1) hk
    have hrows : accountRows (after calls) accountId = part := by
      rw [accountRows, hc, List.filter_eq_self]
      exact fun row hr => by simpa using (ha row hr).2
    have ⟨response, hb, hv⟩ := he calls (hc ▸ fun row hr => (ha row hr).1) .inserted
    have hs := select_perm .inserted (after calls) accountId
    rw [hrows] at hs
    unfold getBalance at hb
    cases hf : ((after calls).select .inserted (·.accountId = accountId)).foldlM balanceStep
        (Decimal.zero, none)
    case error => simp [hf, Except.map] at hb
    case ok result =>
      have hfit := foldlM_fits (fun hz => hn (hz ▸ hs).nil_eq.symm) hf
      rw [hf, Except.map, Except.ok.injEq] at hb
      rw [exactBalance, hrows] at hv
      rw [← hv, ← hb]
      exact hfit

-- The balance is exact in every table that holds some of the rows of a table just if the context
-- can hold the sums of its amounts.
theorem getBalance_exact_iff (calls : List Call) (accountId : Text) :
    (∀ more, (after more).rows ⊆ (after calls).rows → ExactBalance (after more) accountId) ↔
    SumsFit (accountRows (after calls) accountId) where
  mp h := sumsFit_of_exactBalance (consistent_after calls) h
  mpr h more hs := by
    refine exactBalance_of_sumsFit (consistent_after more) (h.of_subperm ?_)
    have hn : (accountRows (after more) accountId).Nodup :=
      (List.Nodup.of_map _ (after more).nodup).filter _
    refine List.subperm_of_subset hn fun row hr => ?_
    have := List.mem_filter.mp hr
    exact List.mem_filter.mpr ⟨hs this.1, this.2⟩

-- Two credits whose sum has 29 digits.
def largeCredits : List Call :=
  [ ⟨.inserted, EventPayload.sample.eventTimestamp, { EventPayload.sample with
      amount := ⟨false, 1, 28⟩, amount_pos := isPos_iff.mp rfl }⟩,
    ⟨.inserted, EventPayload.sample.eventTimestamp, { EventPayload.sampleDebit with
      type := .credit, amount := ⟨false, 1, 0⟩, amount_pos := isPos_iff.mp rfl }⟩ ]

theorem getBalance_not_exact : ¬∀ calls accountId, ExactBalance (after calls) accountId := by
  intro h
  have ⟨response, hb, hv⟩ := h largeCredits EventPayload.sample.accountId .inserted
  have hs : (getBalance .inserted (after largeCredits) EventPayload.sample.accountId).toOption.map
      (·.balance) = some ⟨false, 10 ^ 27, 1⟩ := by decide +kernel
  have he : exactBalance (after largeCredits) EventPayload.sample.accountId = 10 ^ 28 + 1 := by
    decide +kernel
  rw [hb] at hs
  have hs : response.balance = ⟨false, 10 ^ 27, 1⟩ := Option.some.inj hs
  rw [hs, he] at hv
  norm_num [value, signed] at hv

end Account
