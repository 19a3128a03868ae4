import EventLedger.Account.Theorems.Balance

namespace Account

open Decimal

variable {order : RowOrder TransactionRow} {t : Transactions} {accountId : Text}
variable {entries : List Call} {payloads : List EventPayload} {p : EventPayload}

-- Whether the credits, and the debits after their negation, can be added in every order.
structure InRange (amounts : TransactionType → List Decimal) : Prop where
  credits : Summable context (amounts .credit)
  negated : ∀ amount ∈ amounts .debit, (minus context amount).isSome
  debits : Summable context ((amounts .debit).filterMap (minus context))

instance (amounts : TransactionType → List Decimal) : Decidable (InRange amounts) :=
  decidable_of_iff (Summable context (amounts .credit) ∧
      (∀ amount ∈ amounts .debit, (minus context amount).isSome) ∧
      Summable context ((amounts .debit).filterMap (minus context)))
    ⟨fun h => ⟨h.1, h.2.1, h.2.2⟩, fun h => ⟨h.credits, h.negated, h.debits⟩⟩

-- The amounts of one type, as rows and as payloads have them.
def amounts (rows : List TransactionRow) (type : TransactionType) : List Decimal :=
  (rows.filter (·.eventType = type.value)).filterMap (·.readAmount.toOption)

def payloadAmounts (payloads : List EventPayload) (type : TransactionType) : List Decimal :=
  (payloads.filter (·.type = type)).map (·.amount)

theorem readAmount_insertedRow (now : Civil) (p : EventPayload) :
    (insertedRow now p).readAmount = .ok p.amount := by
  simp [PayloadColumns.readAmount, insertedRow, EventPayload.columns, ofText_str]

theorem eventType_insertedRow (now : Civil) (p : EventPayload) (type : TransactionType) :
    (insertedRow now p).eventType = type.value ↔ p.type = type := by
  change p.type.value = type.value ↔ p.type = type
  cases p.type <;> cases type <;> decide

theorem amounts_insertedRow (entries : List Call) :
    amounts (entries.map fun call => insertedRow call.now call.event) =
      payloadAmounts (entries.map (·.event)) := by
  funext type
  have ht : ∀ call : Call, decide ((insertedRow call.now call.event).eventType = type.value) =
      decide (call.event.type = type) := fun call => by simp [eventType_insertedRow]
  simp only [amounts, payloadAmounts, List.filter_map, List.filterMap_map, List.map_map,
    Function.comp_def, ht, readAmount_insertedRow, Except.toOption]
  exact congrFun List.filterMap_eq_map _

theorem amounts_perm {rows rows' : List TransactionRow} (h : rows.Perm rows')
    (type : TransactionType) : (amounts rows type).Perm (amounts rows' type) :=
  (h.filter _).filterMap _

theorem payloadAmounts_perm {more : List EventPayload} (h : payloads.Perm more)
    (type : TransactionType) : (payloadAmounts payloads type).Perm (payloadAmounts more type) :=
  (h.filter _).map _

theorem InRange.perm {as bs : TransactionType → List Decimal} (h : InRange as)
    (hp : ∀ type, (bs type).Perm (as type)) : InRange bs where
  credits := h.credits.of_perm (hp .credit)
  negated amount ha := h.negated amount ((hp .debit).mem_iff.mp ha)
  debits := h.debits.of_perm ((hp .debit).filterMap _)

-- What a payload adds to the balance.
def addend (p : EventPayload) : Option Decimal :=
  if p.type = .credit then some p.amount else minus context p.amount

theorem signedAmount_insertedRow (now : Civil) (p : EventPayload) :
    signedAmount (insertedRow now p) = ReadError.ofResult (addend p) := by
  rw [signedAmount_of_readAmount (readAmount_insertedRow now p), addend]
  simp only [eventType_insertedRow]
  split <;> rfl

-- The fold returns when every payload has an addend and the addends have a sum.
theorem foldlM_returns_iff {state : Decimal × Option Text} :
    (∃ result, (entries.map fun call => insertedRow call.now call.event).foldlM balanceStep state =
      .ok result) ↔ (∀ call ∈ entries, (addend call.event).isSome) ∧
    ((entries.map fun call => (addend call.event).getD zero).foldlM (add context)
      state.1).isSome := by
  induction entries generalizing state
  case nil => exact iff_of_true ⟨state, rfl⟩ ⟨by simp, rfl⟩
  case cons call entries hi =>
    simp only [List.map_cons, List.foldlM_cons, List.forall_mem_cons, isSome_bind_iff, balanceStep,
      signedAmount_insertedRow, Except.bind_eq_ok_iff, ReadError.ofResult_eq_ok]
    constructor
    case mp =>
      rintro ⟨result, next, ⟨amount, ha, balance, hb, hn⟩, hf⟩
      have hn : (balance, _) = next := Except.ok.inj hn
      obtain ⟨hs, hr⟩ := hi.mp ⟨result, hn ▸ hf⟩
      exact ⟨⟨by rw [ha]; rfl, hs⟩, balance, by rw [ha]; exact hb, hr⟩
    case mpr =>
      rintro ⟨⟨ha, hs⟩, balance, hb, hr⟩
      obtain ⟨amount, ha⟩ := Option.isSome_iff_exists.mp ha
      rw [ha, Option.getD_some] at hb
      obtain ⟨result, hf⟩ := (@hi (balance, (state.2.filter (· ≠ [])).or
        (some (insertedRow call.now call.event).currency))).mpr ⟨hs, hr⟩
      exact ⟨result, _, ⟨amount, ha, balance, hb, rfl⟩, hf⟩

theorem addend_isSome_iff : (∀ p ∈ payloads, (addend p).isSome) ↔
    ∀ amount ∈ payloadAmounts payloads .debit, (minus context amount).isSome := by
  simp only [payloadAmounts, List.forall_mem_map, List.mem_filter, decide_eq_true_eq, and_imp]
  refine forall₂_congr fun p _ => ?_
  cases h : p.type <;> simp [addend, h]

theorem addends_credit : (payloads.filter (·.type = .credit)).map (fun p => (addend p).getD zero) =
    payloadAmounts payloads .credit := by
  refine List.map_congr_left fun p hp => ?_
  have ht : p.type = .credit := by simpa using (List.mem_filter.mp hp).2
  simp [addend, ht]

theorem addends_debit (h : ∀ p ∈ payloads, (addend p).isSome) :
    (payloads.filter fun p => !decide (p.type = .credit)).map (fun p => (addend p).getD zero) =
      (payloadAmounts payloads .debit).filterMap (minus context) := by
  have hf : payloads.filter (fun p => !decide (p.type = .credit)) =
      payloads.filter (·.type = .debit) :=
    List.filter_congr fun p _ => by cases p.type <;> rfl
  rw [hf, payloadAmounts, List.filterMap_map, ← List.filterMap_eq_map]
  refine List.filterMap_congr fun p hp => ?_
  obtain ⟨hp, ht⟩ := List.mem_filter.mp hp
  have ht : p.type = .debit := by simpa using ht
  obtain ⟨amount, ha⟩ := Option.isSome_iff_exists.mp (h p hp)
  have hm : minus context p.amount = some amount := by simpa [addend, ht] using ha
  simp [ha, hm]

-- The addends have a sum in every order when the credits and the debits have.
theorem inRange_iff : InRange (payloadAmounts payloads) ↔
    (∀ p ∈ payloads, (addend p).isSome) ∧
      Summable context (payloads.map fun p => (addend p).getD zero) := by
  have hpos : ∀ p ∈ payloads, decide (p.type = .credit) → 0 ≤ ((addend p).getD zero).value :=
    fun p _ ht => by
      have ht : p.type = .credit := by simpa using ht
      simpa [addend, ht] using p.amount_pos.le
  have hneg : ∀ p ∈ payloads, ¬decide (p.type = .credit) → ((addend p).getD zero).value ≤ 0 :=
    fun p _ ht => by
      have ht : ¬p.type = .credit := by simpa using ht
      rw [addend, if_neg ht]
      cases hm : minus context p.amount
      case none => simp
      case some r => exact minus_nonpos p.amount_pos.le hm
  have hsum := summable_iff (c := context) hpos hneg
  constructor
  case mp =>
    intro h
    have ha := addend_isSome_iff.mpr h.negated
    refine ⟨ha, hsum.mpr ⟨?_, ?_⟩⟩
    case refine_1 => exact addends_credit ▸ h.credits
    case refine_2 => exact addends_debit ha ▸ h.debits
  case mpr =>
    rintro ⟨ha, hs⟩
    obtain ⟨hc, hd⟩ := hsum.mp hs
    exact ⟨addends_credit ▸ hc, addend_isSome_iff.mp ha, addends_debit ha ▸ hd⟩

-- Some rows of a consistent table are those of some calls.
theorem Consistent.exists_entries (h : Consistent t) {rows : List TransactionRow}
    (hr : rows ⊆ t.rows) :
    ∃ entries : List Call, entries.map (fun call => insertedRow call.now call.event) = rows := by
  refine List.exists_map_eq fun row hm => ?_
  obtain ⟨now, event, he⟩ := h.written row (hr hm)
  exact ⟨⟨.inserted, now, event⟩, he.symm⟩

theorem returns_iff_foldlM : (∃ response, getBalance order t accountId = .ok response) ↔
    ∃ result, (t.select order (·.accountId = accountId)).foldlM balanceStep (zero, none) =
      .ok result where
  mp h := by
    have ⟨response, hb⟩ := h
    unfold getBalance at hb
    cases hf : (t.select order (·.accountId = accountId)).foldlM balanceStep (zero, none)
    case error => simp [hf, Except.map] at hb
    case ok result => exact ⟨result, rfl⟩
  mpr h := by
    have ⟨result, hf⟩ := h
    have ⟨response, hb, _⟩ := getBalance_of_foldlM hf
    exact ⟨response, hb⟩

-- The balance can be read in every order of the rows just if the amounts stay in range.
theorem Consistent.getBalance_returns_iff (h : Consistent t) (accountId : Text) :
    (∀ order, ∃ response, getBalance order t accountId = .ok response) ↔
    InRange (amounts (accountRows t accountId)) := by
  have hsub : accountRows t accountId ⊆ t.rows := fun _ hr => List.mem_of_mem_filter hr
  obtain ⟨entries, he⟩ := h.exists_entries hsub
  rw [← he, amounts_insertedRow, inRange_iff, List.forall_mem_map, List.map_map, summable_map_iff]
  constructor
  case mp =>
    intro hr
    have hf : ∀ l : List Call, l.Perm entries → (∀ call ∈ l, (addend call.event).isSome) ∧
        (sum context (l.map fun call => (addend call.event).getD zero)).isSome := fun l hl => by
      obtain ⟨order, ho⟩ := t.exists_select (he ▸ hl.map fun c : Call => insertedRow c.now c.event)
      exact foldlM_returns_iff.mp (ho ▸ returns_iff_foldlM.mp (hr order))
    exact ⟨(hf entries (.refl _)).1, fun l hl => (hf l hl).2⟩
  case mpr =>
    rintro ⟨ha, hs⟩ order
    have hp := select_perm order t accountId
    rw [← he] at hp
    obtain ⟨l, hl, hm⟩ := List.exists_perm_map_eq hp
    refine returns_iff_foldlM.mpr ?_
    rw [← hm]
    refine foldlM_returns_iff.mpr ⟨fun call hc => ha call (hl.mem_iff.mp hc), hs l hl⟩

end Account
