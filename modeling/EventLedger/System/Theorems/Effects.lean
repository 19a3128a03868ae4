import EventLedger.System.Theorems.Delivery

namespace System

open Gateway (Client)
open Account (Submits TransactionRow)

variable {client : Client} {s s' : State} {a : Action} {d : Delivery} {row : TransactionRow}
variable {p q : EventPayload}

-- The event that a request carries.
def Delivery.eventId (d : Delivery) : Option Text :=
  d.sent.request.body.bind fun body => (EventPayload.ofJson body).toOption.map (·.eventId)

theorem Delivery.eventId_of_submits (h : Submits d.sent.request q) :
    d.eventId = some q.eventId := by
  have ⟨body, hb, hq⟩ := h.body
  simp only [Delivery.eventId, hb, hq, Option.bind_some, Except.toOption, Option.map_some]

-- A delivery has inserted a row.
def Wrote (d : Delivery) (row : TransactionRow) : Prop :=
  ∃ q, Submits d.sent.request q ∧ row = Account.insertedRow d.now q

theorem Wrote.eventId (h : Wrote d row) : d.eventId = some row.eventId := by
  have ⟨q, hq, he⟩ := h
  exact he ▸ Delivery.eventId_of_submits hq

-- The table is what the inserting deliveries have written, in their order.
def Written (s : State) : Prop :=
  List.Forall₂ Wrote (s.deliveries.filter (·.inserted)) s.account.transactions.rows

theorem Written.moves (h : Written s) (hm : Moves client s a s') : Written s' := by
  cases hm
  case turn ht =>
    rw [Written, ht.deliveries, ht.account]
    exact h
  case idle hi =>
    rw [Written, hi.deliveries, hi.transactions]
    exact h
  case deliver i order now m hm =>
    rw [Written, State.delivered, List.filter_append]
    cases s.account.handle_rows_cases order now m.request
    case inl he =>
      rw [List.filter_cons_of_neg (by simp [he]), he]
      simpa [Written] using h
    case inr hu =>
      obtain ⟨q, hq, _, _, hu⟩ := hu
      rw [List.filter_cons_of_pos (by simp [hu]), hu]
      exact List.rel_append h (.cons ⟨q, hq, rfl⟩ .nil)

theorem written_of_reachable (h : (machine client).Reachable s) : Written s :=
  h.invariant .nil fun _ _ _ hi hs => hi.moves (State.step_moves hs)

-- Where the rows of the Account Service come from.
theorem Written.source (h : Written s) :
    ∀ row ∈ s.account.transactions.rows, ∃ d ∈ s.deliveries, d.inserted ∧ Wrote d row := by
  intro row hr
  have ⟨d, hd, hw⟩ := List.exists_mem_of_forall₂ h hr
  have ⟨hd, hi⟩ := List.mem_filter.mp hd
  exact ⟨d, hd, hi, hw⟩

theorem Written.countP (h : Written s) (key : Text) :
    s.deliveries.countP (fun d => d.inserted ∧ d.eventId = some key) =
      if (s.account.transactions.find? key).isSome then 1 else 0 := by
  have hc : s.deliveries.countP (fun d => d.inserted ∧ d.eventId = some key) =
      (s.deliveries.filter (·.inserted)).countP (·.eventId = some key) := by
    rw [List.countP_filter]
    exact List.countP_congr fun d _ => by simp [and_comm]
  have hr : (s.deliveries.filter (·.inserted)).countP (·.eventId = some key) =
      s.account.transactions.rows.countP (·.eventId = key) :=
    List.countP_of_forall₂ h fun d row hw => by simp [hw.eventId]
  rw [hc, hr, Table.countP_key]

theorem Sound.eventId_of_inserted (h : Sound client s) (hd : d ∈ s.deliveries) (hi : d.inserted) :
    ∃ p, s.gateway.submitted d.sent.tag.handler = some p ∧ d.eventId = some p.eventId := by
  have ⟨q, hq, _⟩ := h.inserted d hd hi
  have ⟨p, hp, hj⟩ := (h.delivered d hd).submits hq
  have ⟨_, _, _, _, he⟩ := EventPayload.ofJson_body_iff.mp hj
  refine ⟨p, hp, ?_⟩
  rw [Delivery.eventId_of_submits hq, he]
  rfl

-- Whatever is retried, delivered late or submitted again, the Account Service moves the money of an
-- event once: its rows are what the inserting deliveries have written, one for each event, and no
-- submission inserts a second time.
structure EffectOnce (s : State) : Prop where
  rows : List.Forall₂ Wrote (s.deliveries.filter (·.inserted)) s.account.transactions.rows
  once : ∀ key, s.deliveries.countP (fun d => d.inserted ∧ d.eventId = some key) =
    if (s.account.transactions.find? key).isSome then 1 else 0
  perSubmission : ∀ id, s.deliveries.countP (fun d => d.inserted ∧ d.sent.tag.handler = id) ≤ 1

theorem effect_once (h : (machine client).Reachable s) : EffectOnce s := by
  have hs := Sound.of_reachable h
  have hw := written_of_reachable h
  refine ⟨hw, hw.countP, fun id => ?_⟩
  cases hp : s.gateway.submitted id
  case none =>
    refine (List.countP_eq_zero.mpr fun d hd hi => ?_).le.trans (Nat.zero_le 1)
    have ⟨hins, hid⟩ := of_decide_eq_true hi
    have ⟨p, hsub, _⟩ := hs.eventId_of_inserted hd hins
    cases (hid ▸ hsub).symm.trans hp
  case some p =>
    calc s.deliveries.countP (fun d => d.inserted ∧ d.sent.tag.handler = id)
      _ ≤ s.deliveries.countP (fun d => d.inserted ∧ d.eventId = some p.eventId) := by
        refine List.countP_mono_left fun d hd hi => ?_
        have ⟨hins, hid⟩ := of_decide_eq_true hi
        have ⟨p', hsub, he⟩ := hs.eventId_of_inserted hd hins
        cases (hid ▸ hsub).symm.trans hp
        exact decide_eq_true ⟨hins, he⟩
      _ = if (s.account.transactions.find? p.eventId).isSome then 1 else 0 := hw.countP p.eventId
      _ ≤ 1 := by split <;> decide

theorem effect_once_late : ∃ s, (machine .default).run lateRun = some s ∧
    s.deliveries.length = 2 ∧ s.account.transactions.rows.length = 1 ∧ EffectOnce s := by
  have hr : ((machine .default).run lateRun).map (fun s =>
      (s.deliveries.length, s.account.transactions.rows.length)) = some (2, 1) := by decide +kernel
  have ⟨s, hs, he⟩ := Option.map_eq_some_iff.mp hr
  have ⟨hd, hl⟩ := Prod.mk.inj he
  exact ⟨s, hs, hd, hl, effect_once ⟨_, hs⟩⟩

end System
