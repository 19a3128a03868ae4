import EventLedger.Account.Theorems.Details

namespace Account

variable {order : RowOrder TransactionRow} {now : Civil} {event : EventPayload} {t u : Transactions}
variable {call : Call} {calls more : List Call} {accountId : Text}
variable {payloads payloads' : List EventPayload}

-- Calls that agree on the payload of an event and on the currency of an account.
structure Compatible (calls : List Call) : Prop where
  event : ∀ c ∈ calls, ∀ d ∈ calls, c.event.eventId = d.event.eventId → c.event = d.event
  currency : ∀ c ∈ calls, ∀ d ∈ calls, c.event.accountId = d.event.accountId →
    c.event.currency = d.event.currency
  length : ∀ c ∈ calls, c.event.currency.length = 3

theorem Compatible.subset {calls more : List Call} (h : Compatible calls) (hs : more ⊆ calls) :
    Compatible more where
  event c hc d hd := h.event c (hs hc) d (hs hd)
  currency c hc d hd := h.currency c (hs hc) d (hs hd)
  length c hc := h.length c (hs hc)

-- The rows of the table are those of the payloads of the calls.
structure Holds (t : Transactions) (calls : List Call) : Prop where
  of_row : ∀ row ∈ t.rows, ∃ c ∈ calls, ∃ now, row = insertedRow now c.event
  row_of : ∀ c ∈ calls, ∃ now, insertedRow now c.event ∈ t.rows

theorem Holds.consistent (h : Holds t calls) (hc : Compatible calls) : Consistent t where
  written row hr :=
    have ⟨c, _, now, he⟩ := h.of_row row hr
    ⟨now, c.event, he⟩
  currency r hr s hs ha := by
    have ⟨c, hcm, _, hc'⟩ := h.of_row r hr
    have ⟨d, hdm, _, hd'⟩ := h.of_row s hs
    subst hc' hd'
    exact hc.currency c hcm d hdm ha

theorem Holds.find? (h : Holds t calls) (hc : Compatible (calls ++ [call])) {row : TransactionRow}
    (hf : t.find? call.event.eventId = some row) : ∃ now, row = insertedRow now call.event := by
  have ⟨hr, hk⟩ := Table.find?_eq_some.mp hf
  have ⟨c, hm, now, he⟩ := h.of_row row hr
  subst he
  have he := hc.event c (by simp [hm]) call (by simp) hk
  exact ⟨now, by rw [he]⟩

-- A call with a payload that is compatible with those before succeeds, and its payload has a row.
theorem Holds.step (h : Holds t calls) (call : Call) (hc : Compatible (calls ++ [call])) :
    (∃ r, (applyTransaction call.order call.now call.event t).1 = .ok r) ∧
    Holds (call.apply t) (calls ++ [call]) := by
  have hl := hc.length call (by simp)
  have hp := applyTransaction_put call.order call.now call.event t
  have hread : ∀ now, (store call.order call.now).read (insertedRow now call.event) =
      .ok (storedRecord now call.event) := fun now => by
    simp [store, transactionFromRow_inserted hl, Except.mapError]
  cases hf : t.find? call.event.eventId
  case some row =>
    obtain ⟨now, he⟩ := h.find? hc hf
    have hs : (store call.order call.now).same (storedRecord now call.event)
        call.event := sameEvent_iff.mpr call.event.stored_sameFacts
    obtain ⟨hx, hu⟩ := hp.of_same hf (he ▸ hread now) hs
    have hu : call.apply t = t := hu
    refine ⟨⟨_, hx⟩, fun row hr => ?_, fun c hm => ?_⟩
    case refine_1 =>
      obtain ⟨c, hm, he⟩ := h.of_row row (hu ▸ hr)
      exact ⟨c, by simp [hm], he⟩
    case refine_2 =>
      rw [hu]
      cases List.mem_append.mp hm
      case inl hm => exact h.row_of c hm
      case inr hm =>
        rw [List.mem_singleton.mp hm]
        exact ⟨now, he ▸ (Table.find?_eq_some.mp hf).1⟩
  case none =>
    have hg : (store call.order call.now).refuses t call.event = none := by
      refine (refuses_eq_none (h.consistent (hc.subset (by simp)))).mpr fun row hr ha => ?_
      obtain ⟨c, hm, _, he⟩ := h.of_row row hr
      subst he
      exact hc.currency c (by simp [hm]) call (by simp) ha
    obtain ⟨hx, hu⟩ := hp.of_fresh hf hg (hread call.now)
    have hu : (call.apply t).rows = t.rows ++ [insertedRow call.now call.event] := hu
    refine ⟨⟨_, hx⟩, fun row hr => ?_, fun c hm => ?_⟩
    case refine_1 =>
      rw [hu, List.mem_append, List.mem_singleton] at hr
      cases hr
      case inl hr =>
        obtain ⟨c, hm, he⟩ := h.of_row row hr
        exact ⟨c, by simp [hm], he⟩
      case inr hr => exact ⟨call, by simp, _, hr⟩
    case refine_2 =>
      rw [hu]
      cases List.mem_append.mp hm
      case inl hm =>
        obtain ⟨now, hr⟩ := h.row_of c hm
        exact ⟨now, by simp [hr]⟩
      case inr hm =>
        rw [List.mem_singleton.mp hm]
        exact ⟨call.now, by simp⟩

theorem holds_after (hc : Compatible calls) : Holds (after calls) calls := by
  induction calls using List.reverseRecOn
  case nil => exact ⟨by simp [after, Table.empty], by simp⟩
  case append_singleton calls call hi =>
    have h := hi (hc.subset (by simp))
    have ha : after (calls ++ [call]) = call.apply (after calls) := by simp [after]
    exact ha ▸ (h.step call hc).2

-- Every call of a compatible sequence returns a record.
theorem succeeds {before later : List Call} (hc : Compatible (before ++ call :: later)) :
    ∃ r, (applyTransaction call.order call.now call.event (after before)).1 = .ok r := by
  have h := holds_after (hc.subset (List.subset_append_left before _))
  exact (h.step call (hc.subset (by simp))).1

-- The columns of a row apart from the time of its application.
def facts (t : Transactions) : List PayloadColumns :=
  t.rows.map (·.toPayloadColumns)

theorem facts_nodup (t : Transactions) : (facts t).Nodup := by
  have h : ((facts t).map (·.eventId)).Nodup := by
    rw [facts, List.map_map]
    exact t.nodup
  exact h.of_map _

theorem Holds.mem_facts (h : Holds t calls) {columns : PayloadColumns} :
    columns ∈ facts t ↔ ∃ c ∈ calls, c.event.columns = columns where
  mp hm := by
    have ⟨row, hr, he⟩ := List.mem_map.mp hm
    have ⟨c, hc, now, hrow⟩ := h.of_row row hr
    exact ⟨c, hc, by rw [← he, hrow]; rfl⟩
  mpr hc := by
    have ⟨c, hc, he⟩ := hc
    have ⟨now, hr⟩ := h.row_of c hc
    exact List.mem_map.mpr ⟨_, hr, he⟩

def factColumns (columns : PayloadColumns) : List (List ℕ) :=
  [Text.utf8 columns.eventTimestamp, Text.utf8 columns.eventId]

theorem history_facts {limit : ℕ} : (history order t accountId limit).map (·.toPayloadColumns) =
    (Table.orderBy factColumns ((t.select order (·.accountId = accountId)).map
      (·.toPayloadColumns))).take limit := by
  have h : ∀ rows : List TransactionRow,
      (Table.orderBy historyColumns rows).map (·.toPayloadColumns) =
      Table.orderBy factColumns (rows.map (·.toPayloadColumns)) :=
    Table.orderBy_map _ fun _ => rfl
  rw [history, List.map_take, h]

-- The history of an account depends only on the rows apart from the time of their application.
theorem history_congr (order order' : RowOrder TransactionRow) {t' : Transactions} {limit : ℕ}
    (h : (facts t).Perm (facts t')) :
    (history order t accountId limit).map (·.toPayloadColumns) =
    (history order' t' accountId limit).map (·.toPayloadColumns) := by
  have hs : ∀ (o : RowOrder TransactionRow) (t : Transactions),
      ((t.select o (·.accountId = accountId)).map (·.toPayloadColumns)).Perm
        ((facts t).filter (·.accountId = accountId)) := fun o t => by
    rw [facts, List.filter_map]
    exact (o.perm _).map _
  rw [history_facts, history_facts]
  congr 1
  refine Table.orderBy_unique ((hs order t).trans ((h.filter _).trans (hs order' t').symm)) ?_
  intro a ha b hb hab
  have he : a.eventId = b.eventId := by
    simp only [factColumns, List.cons.injEq] at hab
    exact Text.utf8_injective hab.2.1
  have hn : ((facts t).map (·.eventId)).Nodup := by
    rw [facts, List.map_map]
    exact t.nodup
  exact List.inj_on_of_nodup_map hn (List.mem_of_mem_filter ((hs order t).mem_iff.mp ha))
    (List.mem_of_mem_filter ((hs order t).mem_iff.mp hb)) he

theorem Compatible.of_same {calls more : List Call} (h : Compatible calls)
    (hs : ∀ c ∈ more, ∃ d ∈ calls, d.event = c.event) : Compatible more where
  event c hc d hd he := by
    have ⟨c', hc', hec⟩ := hs c hc
    have ⟨d', hd', hed⟩ := hs d hd
    rw [← hec, ← hed] at he ⊢
    exact h.event c' hc' d' hd' he
  currency c hc d hd he := by
    have ⟨c', hc', hec⟩ := hs c hc
    have ⟨d', hd', hed⟩ := hs d hd
    rw [← hec, ← hed] at he ⊢
    exact h.currency c' hc' d' hd' he
  length c hc := by
    have ⟨c', hc', hec⟩ := hs c hc
    exact hec ▸ h.length c' hc'

def SamePayloads (calls more : List Call) : Prop :=
  ∀ event, (∃ c ∈ calls, c.event = event) ↔ ∃ c ∈ more, c.event = event

theorem SamePayloads.holds (h : SamePayloads calls more) (ht : Holds t more) : Holds t calls where
  of_row row hr := by
    have ⟨c, hc, now, he⟩ := ht.of_row row hr
    have ⟨d, hd, hde⟩ := (h c.event).mpr ⟨c, hc, rfl⟩
    exact ⟨d, hd, now, hde ▸ he⟩
  row_of c hc := by
    have ⟨d, hd, hde⟩ := (h c.event).mp ⟨c, hc, rfl⟩
    exact hde ▸ ht.row_of d hd

-- The payloads that some calls give an account, in the order of the columns of their rows.
structure AccountPayloads (calls : List Call) (accountId : Text) (payloads : List EventPayload) :
    Prop where
  mem_iff : ∀ p, p ∈ payloads ↔ p.accountId = accountId ∧ ∃ c ∈ calls, c.event = p
  nodup : (payloads.map (·.eventId)).Nodup
  sorted : payloads.Pairwise fun p q => p.columns.timeColumns ≤ q.columns.timeColumns

theorem AccountPayloads.perm (h : AccountPayloads calls accountId payloads)
    (hm : ∀ p, p ∈ payloads' ↔ p.accountId = accountId ∧ ∃ c ∈ calls, c.event = p)
    (hn : (payloads'.map (·.eventId)).Nodup) : payloads.Perm payloads' :=
  (List.perm_ext_iff_of_nodup (h.nodup.of_map _) (hn.of_map _)).mpr fun p =>
    (h.mem_iff p).trans (hm p).symm

theorem AccountPayloads.unique (h : AccountPayloads calls accountId payloads)
    (h' : AccountPayloads calls accountId payloads') : payloads = payloads' := by
  have hp := h.perm h'.mem_iff h'.nodup
  refine hp.eq_of_pairwise (fun p q hm hm' hpq hqp => ?_) h.sorted h'.sorted
  have he : p.columns.timeColumns = q.columns.timeColumns := le_antisymm hpq hqp
  simp only [PayloadColumns.timeColumns, List.cons.injEq] at he
  exact List.inj_on_of_nodup_map h.nodup hm (hp.mem_iff.mpr hm') (Text.utf8_injective he.2.1)

-- The rows of an account are, in the order of the query, those of its payloads.
theorem Holds.exists_sorted (h : Holds t calls) (hc : Compatible calls)
    (order : RowOrder TransactionRow) (accountId : Text) : ∃ entries : List Call,
      entries.map (fun call => insertedRow call.now call.event) = sortedRows order t accountId ∧
      AccountPayloads calls accountId (entries.map (·.event)) := by
  obtain ⟨entries, he, hmem⟩ : ∃ entries : List Call,
      entries.map (fun call => insertedRow call.now call.event) = sortedRows order t accountId ∧
      ∀ call ∈ entries, ∃ c ∈ calls, c.event = call.event := by
    have ⟨entries, he⟩ := List.exists_map_eq
      (f := fun call : { call : Call // ∃ c ∈ calls, c.event = call.event } =>
        insertedRow call.val.now call.val.event)
      (l := sortedRows order t accountId) fun row hm => by
      have hm := (sortedRows_perm order t accountId).mem_iff.mp hm
      have ⟨c, hcm, now, hrow⟩ := h.of_row row (List.mem_of_mem_filter hm)
      exact ⟨⟨⟨.inserted, now, c.event⟩, c, hcm, rfl⟩, hrow.symm⟩
    refine ⟨entries.map (·.val), by rw [List.map_map]; exact he, ?_⟩
    rw [List.forall_mem_map]
    exact fun call _ => call.property
  refine ⟨entries, he, fun p => ?_, ?_, ?_⟩
  case refine_1 =>
    rw [List.mem_map]
    constructor
    case mp =>
      rintro ⟨call, hm, rfl⟩
      have hr := (mem_sorted he).mpr ⟨call, hm, rfl⟩
      exact ⟨of_decide_eq_true (List.mem_filter.mp hr).2, hmem call hm⟩
    case mpr =>
      rintro ⟨ha, c, hcm, rfl⟩
      obtain ⟨now, hr⟩ := h.row_of c hcm
      have hr : insertedRow now c.event ∈ accountRows t accountId :=
        List.mem_filter.mpr ⟨hr, decide_eq_true ha⟩
      obtain ⟨call, hm, hrow⟩ := (mem_sorted he).mp hr
      obtain ⟨d, hd, hde⟩ := hmem call hm
      have hid : call.event.eventId = c.event.eventId := congrArg (·.eventId) hrow
      exact ⟨call, hm, hde.symm.trans (hc.event d hd c hcm (hde ▸ hid))⟩
  case refine_2 =>
    rw [List.map_map]
    exact sorted_nodup he
  case refine_3 =>
    have hs : (sortedRows order t accountId).Pairwise
        fun r s => historyColumns r ≤ historyColumns s := Table.orderBy_sorted _
    rw [← he, List.pairwise_map] at hs
    exact List.pairwise_map.mpr hs

-- The details list the payloads of the account in their order, if the balance can be read.
theorem Holds.getAccountDetails_iff (h : Holds t calls) (hc : Compatible calls)
    (hp : AccountPayloads calls accountId payloads) (order : RowOrder TransactionRow) (limit : ℕ) :
    (∃ details, getAccountDetails order t accountId limit = .ok details ∧
      details.recentTransactions.map (·.toEventPayload) =
        (payloads.take limit).map (·.stored)) ↔
    ∃ balance, getBalance order t accountId = .ok balance := by
  obtain ⟨entries, he, hs⟩ := h.exists_sorted hc order accountId
  constructor
  case mp =>
    rintro ⟨details, hd, _⟩
    exact ⟨_, getAccountDetails_balance hd⟩
  case mpr =>
    intro hb
    have hl : ∀ call ∈ entries.take limit, call.event.currency.length = 3 := fun call hm => by
      obtain ⟨_, c, hcm, hce⟩ := (hs.mem_iff _).mp (List.mem_map_of_mem (List.mem_of_mem_take hm))
      exact hce ▸ hc.length c hcm
    obtain ⟨details, hd, hr⟩ := (Account.getAccountDetails_iff he).mpr ⟨hb, hl, rfl⟩
    refine ⟨details, hd, ?_⟩
    rw [hr, hp.unique hs, List.map_map, ← List.map_take, List.map_map]
    rfl

theorem Holds.inRange_iff (h : Holds t calls) (hc : Compatible calls)
    (hp : AccountPayloads calls accountId payloads) :
    (∀ order, ∃ balance, getBalance order t accountId = .ok balance) ↔
    InRange (payloadAmounts payloads) := by
  obtain ⟨entries, he, hs⟩ := h.exists_sorted hc .inserted accountId
  have hrows := sortedRows_perm .inserted t accountId
  rw [← he] at hrows
  have ha : ∀ type, (amounts (accountRows t accountId) type).Perm (payloadAmounts payloads type) :=
    fun type => by
      rw [hp.unique hs, ← amounts_insertedRow]
      exact amounts_perm hrows.symm type
  rw [(h.consistent hc).getBalance_returns_iff]
  exact ⟨fun hr => hr.perm fun type => (ha type).symm, fun hr => hr.perm ha⟩

-- What the order of the calls and their repetition must not change: every call succeeds, the tables
-- are equal apart from the times of application, and every account lists the same transactions.
structure Independent (calls more : List Call) : Prop where
  succeeds : ∀ before call later,
    calls = before ++ call :: later ∨ more = before ++ call :: later →
    ∃ r, (applyTransaction call.order call.now call.event (after before)).1 = .ok r
  facts : (facts (after calls)).Perm (facts (after more))
  lists : ∀ accountId, ∃ payloads, AccountPayloads calls accountId payloads ∧
    ∀ t ∈ [after calls, after more], ∀ order limit, ∃ details,
      getAccountDetails order t accountId limit = .ok details ∧
      details.recentTransactions.map (·.toEventPayload) = (payloads.take limit).map (·.stored)

theorem Independent.inRange (h : Independent calls more) (hc : Compatible calls)
    (hp : AccountPayloads calls accountId payloads) : InRange (payloadAmounts payloads) := by
  refine ((holds_after hc).inRange_iff hc hp).mp fun order => ?_
  obtain ⟨_, _, hl⟩ := h.lists accountId
  obtain ⟨details, hd, _⟩ := hl (after calls) (by simp) order 0
  exact ⟨_, getAccountDetails_balance hd⟩

-- Neither the order of the calls nor their repetition can be seen in what they leave just if the
-- amounts of every account stay in range.
theorem arrival_order_independent_iff {calls more : List Call} (hc : Compatible calls)
    (hs : SamePayloads calls more) : Independent calls more ↔
    ∀ accountId payloads, AccountPayloads calls accountId payloads →
      InRange (payloadAmounts payloads) := by
  have hm : Compatible more := hc.of_same fun c hcm => (hs c.event).mpr ⟨c, hcm, rfl⟩
  have h := holds_after hc
  have h' := hs.holds (holds_after hm)
  constructor
  case mp => exact fun hi accountId payloads hp => hi.inRange hc hp
  case mpr =>
    intro hr
    refine ⟨fun before call later he => ?_, ?_, fun accountId => ?_⟩
    case refine_1 =>
      cases he
      case inl he => exact succeeds (he ▸ hc)
      case inr he => exact succeeds (he ▸ hm)
    case refine_2 =>
      refine (List.perm_ext_iff_of_nodup (facts_nodup _) (facts_nodup _)).mpr fun columns => ?_
      rw [h.mem_facts, h'.mem_facts]
    case refine_3 =>
      obtain ⟨entries, _, hp⟩ := h.exists_sorted hc .inserted accountId
      refine ⟨_, hp, fun t ht order limit => ?_⟩
      have ht : Holds t calls := by
        rcases List.mem_pair.mp ht with rfl | rfl
        case inl => exact h
        case inr => exact h'
      exact (ht.getAccountDetails_iff hc hp order limit).mpr
        ((ht.inRange_iff hc hp).mpr (hr accountId _ hp) order)

-- A credit and a debit, delivered in the other order and one of them twice.
theorem arrival_order_independent_two :
    let credit : Call := ⟨.inserted, EventPayload.sample.eventTimestamp, .sample⟩
    let debit : Call := ⟨.reversed, EventPayload.sample.eventTimestamp, .sampleDebit⟩
    Independent [credit, debit] [debit, credit, debit] := by
  intro credit debit
  have he : EventPayload.sampleDebit.eventId ≠ EventPayload.sample.eventId := by decide
  have hc : EventPayload.sampleDebit.currency = EventPayload.sample.currency := rfl
  have hl : EventPayload.sample.currency.length = 3 := rfl
  refine (arrival_order_independent_iff
    { event := by simp [credit, debit, he, he.symm]
      currency := by simp [credit, debit, hc]
      length := by simp [credit, debit, hc, hl] }
    (by simp [SamePayloads, or_comm])).mpr fun accountId payloads hp => ?_
  by_cases ha : EventPayload.sample.accountId = accountId
  case pos =>
    have hperm : payloads.Perm [.sample, .sampleDebit] :=
      hp.perm (fun p => by subst ha; constructor <;> aesop) (by simp [he.symm])
    have hr : InRange (payloadAmounts [.sample, .sampleDebit]) := by decide +kernel
    exact hr.perm (payloadAmounts_perm hperm)
  case neg =>
    have hd : EventPayload.sampleDebit.accountId ≠ accountId := ha
    have hperm : payloads.Perm [] := hp.perm (fun p => by aesop) (by simp)
    have hr : InRange (payloadAmounts []) := by decide +kernel
    exact hr.perm (payloadAmounts_perm hperm)

-- A credit beyond the largest decimal.
def hugeCredit : EventPayload :=
  { EventPayload.sample with
    amount := ⟨false, 1, 1000000⟩
    amount_pos := Decimal.isPos_iff.mp rfl }

-- The balance of its account cannot be read.
theorem not_arrival_order_independent : ¬∀ calls more : List Call, Compatible calls →
    SamePayloads calls more → Independent calls more := by
  intro h
  let calls : List Call := [⟨.inserted, EventPayload.sample.eventTimestamp, hugeCredit⟩]
  have hc : Compatible calls :=
    { event := by simp [calls]
      currency := by simp [calls]
      length := by simp [calls, hugeCredit, EventPayload.sample] }
  have hp : AccountPayloads calls hugeCredit.accountId [hugeCredit] :=
    { mem_iff := fun p => by simp [calls]; aesop
      nodup := by simp
      sorted := by simp }
  have hr := (h calls calls hc (fun _ => .rfl)).inRange hc hp
  have hlt := hr.credits.abs_value_lt (d := hugeCredit.amount) (by decide)
  have hv : |hugeCredit.amount.value| = 10 ^ (context.emax + 1) := by
    have he : context.emax + 1 = hugeCredit.amount.exp := by decide
    rw [Decimal.abs_value, he]
    exact one_mul _
  exact absurd hlt (hv ▸ lt_irrefl _)

end Account
