import EventLedger.System.Theorems.Invariant

namespace System

open Gateway (Client EventRow)
open Account (Transactions TransactionRow)

variable {client : Client} {s s' : State} {a : Action} {event q : EventPayload}
variable {t : Transactions} {now : Civil}

-- The row of the Account Service that stands for a row of the Gateway. Its amount is what the
-- number that JSON carries for the amount is read as.
structure Mirrors (g : EventRow) (r : TransactionRow) : Prop where
  eventId : r.eventId = g.eventId
  accountId : r.accountId = g.accountId
  eventType : r.eventType = g.eventType
  currency : r.currency = g.currency
  instant : ∃ c, Time.parseTimestamp g.eventTimestamp = .ok c ∧
    Time.parseTimestamp r.eventTimestamp = .ok c
  metadata : ∃ m n, Json.loads g.metadataJson = some m ∧ Json.loads r.metadataJson = some n ∧
    Json.pyEq m n
  amount : ∃ d x e, Decimal.ofText g.amount = some d ∧ Binary64.ofDecimal d = some x ∧
    Decimal.ofText r.amount = some e ∧ e.value = x.readBack.value

-- What the two tables have to do with each other.
structure Agrees (s : State) : Prop where
  gateway_nodup : (s.gateway.events.rows.map (·.eventId)).Nodup
  account_nodup : (s.account.transactions.rows.map (·.eventId)).Nodup
  mirrored : ∀ g ∈ s.gateway.events.rows, ∃ r ∈ s.account.transactions.rows, Mirrors g r
  counted : ∀ g ∈ s.gateway.events.rows, ∀ order,
    ((s.account.transactions.select order (·.accountId = g.accountId)).countP
      (·.eventId = g.eventId)) = 1
  counted_le : ∀ order accountId eventId,
    ((s.account.transactions.select order (·.accountId = accountId)).countP
      (·.eventId = eventId)) ≤ 1

theorem loads_metadata (p : EventPayload) :
    Json.loads p.columns.metadataJson = some (.obj p.storedMetadata) :=
  p.sorted_metadata ▸ Json.loads_dumps p.metadata_wf

-- What the Account Service has recorded of a payload, as a row.
theorem Sound.taken_row (h : Sound client s) (ht : Account.Taken s.account.transactions q) :
    ∃ r ∈ s.account.transactions.rows, ∃ now' q', r = Account.insertedRow now' q' ∧
      q'.SameFacts q := by
  obtain ⟨r, record, hf, hr, hs⟩ := ht
  have ⟨hm, _⟩ := Table.find?_eq_some.mp hf
  obtain ⟨now', q', _, he, _⟩ := h.written r hm
  subst he
  exact ⟨_, hm, now', q', rfl, (Account.sameFacts_of_inserted hr).symm.trans hs⟩

theorem storedMetadata_isStandard_iff (p : EventPayload) :
    (Json.obj p.storedMetadata).isStandard ↔ (Json.obj p.metadata).isStandard := by
  have hw := p.stored.metadata_wf
  have he : Json.pyEq (.obj p.storedMetadata) (.obj p.metadata) := p.stored_sameFacts.metadata
  exact ⟨Json.isStandard_of_pyEq hw p.metadata_wf he,
    Json.isStandard_of_pyEq p.metadata_wf hw (Json.pyEq_symm hw p.metadata_wf he)⟩

-- The row of a payload has JSON metadata without the floats that JSON does not have.
def HasStandard (g : EventRow) : Prop :=
  ∃ m, Json.loads g.metadataJson = some m ∧ m.isStandard

theorem hasStandard_inserted : HasStandard (Gateway.insertedRow now event) ↔
    (Json.obj event.metadata).isStandard := by
  have hl : Json.loads (Gateway.insertedRow now event).metadataJson =
      some (.obj event.storedMetadata) := loads_metadata event
  simp only [HasStandard, hl, Option.some.injEq, exists_eq_left', storedMetadata_isStandard_iff]

-- Standard metadata is the same on the wire.
theorem metadata_of_wire (hq : EventPayload.ofJson event.body = .ok q)
    (hs : (Json.obj event.metadata).isStandard) : q.metadata = event.metadata := by
  obtain ⟨_, x, hx, _, he⟩ := EventPayload.ofJson_body_iff.mp hq
  subst he
  have hm := event.nullNonFinite_metadata
  rw [Json.nullNonFinite_of_isStandard hs] at hm
  exact (Json.obj.inj hm).symm

theorem mirrors_inserted {now' : Civil} {q' : EventPayload}
    (hq : EventPayload.ofJson event.body = .ok q) (hs : q'.SameFacts q)
    (hm : (Json.obj event.metadata).isStandard) :
    Mirrors (Gateway.insertedRow now event) (Account.insertedRow now' q') := by
  have hmeta := metadata_of_wire hq hm
  obtain ⟨_, x, hx, ho, he⟩ := EventPayload.ofJson_body_iff.mp hq
  subst he
  constructor
  case eventId   => exact hs.eventId
  case accountId => exact hs.accountId
  case eventType => exact congrArg TransactionType.value hs.type
  case currency  => exact hs.currency
  case instant   =>
    have ht : q'.eventTimestamp = event.eventTimestamp := hs.eventTimestamp
    exact ⟨_, Time.parseTimestamp_formatUtc event.eventTimestamp,
      ht ▸ Time.parseTimestamp_formatUtc q'.eventTimestamp⟩
  case metadata  =>
    refine ⟨_, _, loads_metadata event, loads_metadata q', ?_⟩
    have h₁ := event.stored_sameFacts.metadata
    have h₂ := (q'.stored_sameFacts.trans hs).symm.metadata
    rw [hmeta] at h₂
    exact Json.pyEq_trans h₁ h₂
  case amount    =>
    exact ⟨_, x, _, Decimal.ofText_str event.amount, ho, Decimal.ofText_str q'.amount, hs.amount⟩

theorem standard_of_mirrors {now' : Civil} {q' : EventPayload}
    (h : Mirrors (Gateway.insertedRow now event) (Account.insertedRow now' q'))
    (hq : (Json.obj q'.metadata).isStandard) : (Json.obj event.metadata).isStandard := by
  obtain ⟨m, n, hm, hn, he⟩ := h.metadata
  have hm : some m = some (.obj event.storedMetadata) := hm.symm.trans (loads_metadata event)
  have hn : some n = some (.obj q'.storedMetadata) := hn.symm.trans (loads_metadata q')
  rw [Option.some.inj hm, Option.some.inj hn] at he
  have hw := event.stored.metadata_wf
  have hw' := q'.stored.metadata_wf
  rw [← storedMetadata_isStandard_iff] at hq ⊢
  exact Json.isStandard_of_pyEq hw' hw (Json.pyEq_symm hw hw' he) hq

-- The rows of an account in which a balance counts an event.
theorem countP_select_le (t : Transactions) (order : RowOrder TransactionRow)
    (accountId eventId : Text) :
    ((t.select order (·.accountId = accountId)).countP (·.eventId = eventId)) ≤ 1 := by
  have hn := t.select_nodup (o := order) (p := (·.accountId = accountId))
  have hc := List.nodup_iff_count_le_one.mp hn eventId
  rw [List.count, List.countP_map] at hc
  exact (List.countP_congr fun r _ => by simp).trans_le hc

theorem countP_select_of_mem {r : TransactionRow} (hr : r ∈ t.rows)
    (order : RowOrder TransactionRow) :
    ((t.select order (·.accountId = r.accountId)).countP (·.eventId = r.eventId)) = 1 := by
  have hm : r ∈ t.select order (·.accountId = r.accountId) := Table.mem_select.mpr ⟨hr, by simp⟩
  have hp : 0 < (t.select order (·.accountId = r.accountId)).countP (·.eventId = r.eventId) :=
    List.countP_pos_iff.mpr ⟨r, hm, by simp⟩
  have hl := countP_select_le t order r.accountId r.eventId
  omega

-- The tables agree just if all that the Gateway has recorded has standard metadata.
theorem Sound.agrees_iff (h : Sound client s) :
    Agrees s ↔ ∀ g ∈ s.gateway.events.rows, HasStandard g := by
  constructor
  case mp =>
    intro ha g hg
    obtain ⟨now, event, he, _, q, hq, ht⟩ := h.recorded g hg
    obtain ⟨r, hr, hm⟩ := ha.mirrored g hg
    obtain ⟨now', q', event', hr', hj⟩ := h.written r hr
    obtain ⟨_, x, _, _, hq'⟩ := EventPayload.ofJson_body_iff.mp hj
    have hst : (Json.obj q'.metadata).isStandard := hq' ▸ event'.sentMetadata_isStandard
    subst he hr'
    exact hasStandard_inserted.mpr (standard_of_mirrors hm hst)
  case mpr =>
    intro hs
    have hm : ∀ g ∈ s.gateway.events.rows, ∃ r ∈ s.account.transactions.rows, Mirrors g r := by
      intro g hg
      obtain ⟨now, event, he, _, q, hq, ht⟩ := h.recorded g hg
      obtain ⟨r, hr, now', q', hr', hq'⟩ := h.taken_row ht
      have hg := hs g hg
      subst he hr'
      exact ⟨_, hr, mirrors_inserted hq hq' (hasStandard_inserted.mp hg)⟩
    refine ⟨s.gateway.events.nodup, s.account.transactions.nodup, hm, fun g hg order => ?_,
      countP_select_le _⟩
    obtain ⟨r, hr, hmir⟩ := hm g hg
    rw [← hmir.accountId, ← hmir.eventId]
    exact countP_select_of_mem hr order

-- What a successful reply is about to record has standard metadata.
def Standard (s : State) (a : Action) : Prop :=
  ∀ id now outcome handler event, s.gatewayAction a = some (.settle id now outcome) →
    outcome.isSuccess → s.gateway.handlers id = some handler →
    handler.operation = .applyTransaction event →
    s.gateway.events.find? event.eventId = none → (Json.obj event.metadata).isStandard

theorem standard_of_gatewayAction (h : s.gatewayAction a = none) : Standard s a := by
  intro id now outcome handler event ha
  simp [h] at ha

-- A step records just what the condition is about.
theorem Turns.hasStandard_iff {b : Gateway.Action} {sent : Option Gateway.Sent}
    (ht : Turns client s b sent s') (ha : s.gatewayAction a = some b)
    (hp : ∀ g ∈ s.gateway.events.rows, HasStandard g) :
    (∀ g ∈ s'.gateway.events.rows, HasStandard g) ↔ Standard s a := by
  constructor
  case mp =>
    intro hg id now outcome handler event hb ho hh he hf
    cases ha.symm.trans hb
    obtain ⟨g, hs, hg'⟩ := Option.map_eq_some_iff.mp ht.step
    cases hg'
    obtain ⟨_, attempt, _, hc, _, _⟩ := Gateway.Turn.settle hs
    cases hh.symm.trans hc
    subst he
    have hu := Gateway.State.settle_success_rows hc ho hf hs
    exact hasStandard_inserted.mp (hg (Gateway.insertedRow now event) (by simp [hu]))
  case mpr =>
    intro hc g hg
    rcases (Gateway.State.step_moves ht.step).rows_cases with he |
      ⟨id, now, outcome, handler, event, now', hb, ho, hh, he, hf, hu⟩
    case inl => exact hp g (he ▸ hg)
    case inr =>
      rw [hu, List.mem_append, List.mem_singleton] at hg
      rcases hg with hg | hg
      case inl => exact hp g hg
      case inr =>
        subst hg hb
        exact hasStandard_inserted.mpr (hc id now outcome handler event ha ho hh he hf)

theorem Sound.agrees_step_iff (h : Sound client s) (ha : Agrees s)
    (hs : (machine client).step s a = some s') : Agrees s' ↔ Standard s a := by
  rw [(h.step hs).agrees_iff]
  have hp := h.agrees_iff.mp ha
  cases State.step_moves hs
  case turn ha ht     => exact ht.hasStandard_iff ha hp
  case deliver        => exact iff_of_true hp (standard_of_gatewayAction rfl)
  case idle ha hi     => exact iff_of_true (hi.gateway ▸ hp) (standard_of_gatewayAction ha)

theorem agrees_init : Agrees .init :=
  have h : Sound .default .init := .init
  h.agrees_iff.mpr (by simp [State.init, Gateway.State.init, Table.empty])

-- A run keeps the tables in agreement just if all that it records has standard metadata.
theorem always_agrees_iff (client : Client) {as : List Action}
    (h : (machine client).run as = some s) :
    (machine client).Always Agrees .init as ↔ (machine client).Meets Standard .init as :=
  Machine.always_iff_meets (fun _ _ _ hi hs => hi.step hs)
    (fun _ _ _ hi hp hs => hi.agrees_step_iff hp hs) Sound.init agrees_init h

theorem begun_of_step {operation : Gateway.Operation} (hs : (machine client).step s a = some s')
    (ho : operation ∈ s'.gateway.begun) : operation ∈ s.gateway.begun ∨ a = .begin operation := by
  rcases begun_cases hs with he | ⟨operation', ha, he⟩
  case inl => exact .inl (he ▸ ho)
  case inr =>
    rw [he, List.mem_append, List.mem_singleton] at ho
    refine ho.imp_right fun ho => ?_
    rw [ho, ha]

theorem Sound.meets_standard {as : List Action} (h : Sound client s)
    (hb : ∀ event, .applyTransaction event ∈ s.gateway.begun → (Json.obj event.metadata).isStandard)
    (ha : ∀ event, .begin (.applyTransaction event) ∈ as → (Json.obj event.metadata).isStandard) :
    (machine client).Meets Standard s as := by
  induction as generalizing s
  case nil => trivial
  case cons a as hi =>
    refine ⟨fun id _ _ handler event _ _ hh he _ => hb event ?_, fun s' hs => hi (h.step hs) ?_ ?_⟩
    case refine_1 => exact List.mem_of_getElem? (he ▸ h.gateway.running id handler hh)
    case refine_2 =>
      intro event ho
      rcases begun_of_step hs ho with ho | ho
      case inl => exact hb event ho
      case inr => exact ha event (ho ▸ List.mem_cons_self)
    case refine_3 => exact fun event ho => ha event (List.mem_cons_of_mem a ho)

-- Submissions with standard metadata meet the condition.
theorem meets_standard_of_submissions {as : List Action}
    (h : ∀ event, .begin (.applyTransaction event) ∈ as → (Json.obj event.metadata).isStandard) :
    (machine client).Meets Standard .init as :=
  Sound.init.meets_standard (by simp [State.init, Gateway.State.init]) h

-- The shortest run in which both services record an event.
def recordingRun (event : EventPayload) : List Action :=
  [
    .begin (.applyTransaction event),
    .deliver 0 .inserted event.eventTimestamp,
    .receive 0 event.eventTimestamp
  ]

theorem always_agrees_sample :
    (machine .default).Always Agrees .init (recordingRun .sample) := by
  have hr : ((machine .default).run (recordingRun .sample)).isSome := by decide +kernel
  obtain ⟨s, hs⟩ := Option.isSome_iff_exists.mp hr
  refine (always_agrees_iff .default hs).mpr (meets_standard_of_submissions fun event he => ?_)
  simp only [recordingRun, List.mem_cons, Action.begin.injEq, reduceCtorEq, List.not_mem_nil,
    Gateway.Operation.applyTransaction.injEq, or_false] at he
  subst he
  rfl

-- A credit with a number that JSON does not have.
def nanCredit : EventPayload :=
  { EventPayload.sample with
    metadata := [("note".toList, .float .nan)]
    metadata_wf := Json.wf_obj.mpr (by simp [Json.WF])
    metadata_stripped := by
      simp only [List.mem_singleton, forall_eq]
      exact .of_strip (by decide) }

theorem not_agrees_nan : ∃ s, (machine .default).run (recordingRun nanCredit) = some s ∧
    ¬Agrees s := by
  have hr : ((machine .default).run (recordingRun nanCredit)).map (fun s =>
      s.gateway.events.rows.map fun g => (Json.loads g.metadataJson).map (·.isStandard)) =
      some [some false] := by decide +kernel
  obtain ⟨s, hs, hg⟩ := Option.map_eq_some_iff.mp hr
  refine ⟨s, hs, fun ha => ?_⟩
  have h : Sound .default s := .of_reachable ⟨_, hs⟩
  obtain ⟨g, hrows, hl⟩ := List.map_eq_singleton_iff.mp hg
  obtain ⟨m, hm, hst⟩ := h.agrees_iff.mp ha g (by simp [hrows])
  simp [hm, hst] at hl

end System
