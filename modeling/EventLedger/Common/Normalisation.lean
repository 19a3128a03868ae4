import EventLedger.Common.Http

namespace Except

variable {ε α β : Type} {x : Except ε α} {f : α → Except ε β} {e : ε}

theorem bind_ne_error (hx : x ≠ .error e) (hf : ∀ a, x = .ok a → f a ≠ .error e) :
    x >>= f ≠ .error e := by
  cases x
  case error d => exact fun h => hx (congrArg _ (Except.error.inj h))
  case ok a    => exact hf a rfl

end Except

namespace EventPayload

variable {value : DateTime} {body : Document} {raw : RawEvent} {c : Civil} {i : ℤ}

theorem validateEventTimestamp_eq_ok_iff :
    validateEventTimestamp value = .ok c ↔ value.Denotes c.instant := by
  rw [← Time.requireAwareUtc_eq_ok_iff, validateEventTimestamp]
  split
  case h_1 h => rw [h, Except.ok.injEq, Except.ok.injEq]
  case h_2 h => simp [h]
  case h_3 h => simp [h]

theorem validateEventTimestamp_of_naive (h : value.offset = none) :
    validateEventTimestamp value =
      .error (.field "eventTimestamp".toList "value_error".toList) := by
  rw [validateEventTimestamp, Time.requireAwareUtc_of_naive h]

theorem validateEventTimestamp_of_not_inCalendar (h : value.Denotes i)
    (hi : ¬Civil.InCalendar i) : validateEventTimestamp value = .error .overflow := by
  rw [validateEventTimestamp, Time.requireAwareUtc_of_not_inCalendar h hi]

theorem validateEventTimestamp_ne_overflow (h : overflows value = false) :
    validateEventTimestamp value ≠ .error .overflow := by
  unfold overflows at h
  unfold validateEventTimestamp
  split at h
  case h_1 => cases h
  case h_2 hn =>
    split
    case h_1   => nofun
    case h_2   => nofun
    case h_3 h => exact absurd h hn

theorem overflows_of_naive (h : value.offset = none) : overflows value = false := by
  rw [overflows, Time.requireAwareUtc_of_naive h]

section Overflow

-- Only the time of the event can end the validation with an exception of its own.
theorem validateFields_ne_overflow (h : overflows raw.eventTimestamp = false) :
    validateFields raw ≠ .error .overflow := by
  have hid : ∀ loc t, validateId loc t ≠ .error .overflow := fun loc t => by
    unfold validateId
    split <;> nofun
  have htype : validateType raw.type ≠ .error .overflow := by
    unfold validateType
    split <;> nofun
  have hamount : validateAmount raw.amount ≠ .error .overflow := by
    unfold validateAmount
    split <;> nofun
  have hcurrency : validateCurrency raw.currency ≠ .error .overflow := by
    unfold validateCurrency
    split
    case isTrue  => nofun
    case isFalse => split <;> nofun
  have htime := validateEventTimestamp_ne_overflow h
  refine Except.bind_ne_error (hid _ _) fun _ _ => ?_
  refine Except.bind_ne_error (hid _ _) fun _ _ => ?_
  refine Except.bind_ne_error htype fun _ _ => ?_
  refine Except.bind_ne_error hamount fun _ _ => ?_
  refine Except.bind_ne_error hcurrency fun _ _ => ?_
  exact Except.bind_ne_error htime fun _ _ => nofun

theorem textMember_ne_overflow (fs : List (Text × Json)) (label name : String) :
    textMember fs label name ≠ .error .overflow := by
  unfold textMember
  split <;> nofun

theorem decimalMember_ne_overflow (fs : List (Text × Json)) (label name : String) :
    decimalMember fs label name ≠ .error .overflow := by
  unfold decimalMember
  split
  case h_4 => split <;> nofun
  all_goals nofun

theorem datetimeMember_ne_overflow (fs : List (Text × Json)) (label name : String) :
    datetimeMember fs label name ≠ .error .overflow := by
  have ht := textMember_ne_overflow fs label name
  unfold datetimeMember
  split
  case h_1 e he =>
    intro h
    rw [he, Except.error.inj h] at ht
    exact ht rfl
  case h_2 => split <;> nofun

theorem objectMember_ne_overflow {fs : List (Text × Json)} (label name : String)
    (h : (Json.obj fs).WF) : objectMember fs label name h ≠ .error .overflow := by
  unfold objectMember
  split <;> nofun

theorem decode_ne_overflow (body : Document) : decode body ≠ .error .overflow := by
  unfold decode
  split
  case h_2 => nofun
  case h_1 fs h =>
    refine Except.bind_ne_error (textMember_ne_overflow _ _ _) fun _ _ => ?_
    refine Except.bind_ne_error (textMember_ne_overflow _ _ _) fun _ _ => ?_
    refine Except.bind_ne_error (textMember_ne_overflow _ _ _) fun _ _ => ?_
    refine Except.bind_ne_error (decimalMember_ne_overflow _ _ _) fun _ _ => ?_
    refine Except.bind_ne_error (textMember_ne_overflow _ _ _) fun _ _ => ?_
    refine Except.bind_ne_error (datetimeMember_ne_overflow _ _ _) fun _ _ => ?_
    exact Except.bind_ne_error (objectMember_ne_overflow _ _ _) fun _ _ => nofun

theorem decode_eventTimestamp (h : decode body = .ok raw) :
    timestampMember body = some raw.eventTimestamp := by
  unfold decode at h
  split at h
  case h_2 => cases h
  case h_1 fs _ =>
    obtain ⟨_, _, h⟩ := Except.bind_eq_ok h
    obtain ⟨_, _, h⟩ := Except.bind_eq_ok h
    obtain ⟨_, _, h⟩ := Except.bind_eq_ok h
    obtain ⟨_, _, h⟩ := Except.bind_eq_ok h
    obtain ⟨_, _, h⟩ := Except.bind_eq_ok h
    obtain ⟨value, ht, h⟩ := Except.bind_eq_ok h
    obtain ⟨_, _, h⟩ := Except.bind_eq_ok h
    cases h
    simp only [timestampMember, ht, Except.toOption]

-- A request ends in an exception just if its time does.
theorem ofJson_eq_overflow_iff :
    ofJson body = .error .overflow ↔ (timestampMember body).any overflows := by
  constructor
  case mpr => exact fun h => if_pos h
  case mp =>
    intro h
    by_contra hn
    have ho := Bool.eq_false_iff.mpr hn
    rw [ofJson_of_not_overflows ho] at h
    refine Except.bind_ne_error (decode_ne_overflow body) (fun raw hr => ?_) h
    rw [decode_eventTimestamp hr, Option.any_some] at ho
    rw [validate_of_not_overflows ho]
    exact validateFields_ne_overflow ho

end Overflow

theorem validateFields_eventTimestamp {p : EventPayload} (h : validateFields raw = .ok p) :
    validateEventTimestamp raw.eventTimestamp = .ok p.eventTimestamp := by
  obtain ⟨_, _, h⟩ := Except.bind_eq_ok h
  obtain ⟨_, _, h⟩ := Except.bind_eq_ok h
  obtain ⟨_, _, h⟩ := Except.bind_eq_ok h
  obtain ⟨_, _, h⟩ := Except.bind_eq_ok h
  obtain ⟨_, _, h⟩ := Except.bind_eq_ok h
  obtain ⟨_, ht, h⟩ := Except.bind_eq_ok h
  cases h
  exact ht

-- A payload that is accepted has the instant of its request.
theorem ofJson_denotes {p : EventPayload} (h : ofJson body = .ok p) :
    ∃ value, timestampMember body = some value ∧ value.Denotes p.eventTimestamp.instant := by
  have ho : (timestampMember body).any overflows = false := by
    by_contra hn
    rw [ofJson_eq_overflow_iff.mpr (Bool.eq_true_of_not_eq_false hn)] at h
    cases h
  rw [ofJson_of_not_overflows ho] at h
  obtain ⟨raw, hr, hv⟩ := Except.bind_eq_ok h
  have ht := decode_eventTimestamp hr
  rw [ht, Option.any_some] at ho
  rw [validate_of_not_overflows ho] at hv
  exact ⟨_, ht, validateEventTimestamp_eq_ok_iff.mp (validateFields_eventTimestamp hv)⟩

theorem ofInvalid_status {e : Invalid} (h : e ≠ .overflow) :
    (Http.Response.ofInvalid e).status = 422 := by
  cases e
  case field    => rfl
  case overflow => exact absurd rfl h

-- What the validation of a time may do: it yields the same instant in UTC, or it fails with a
-- ValueError, and then every request with this time is answered as a validation error.
inductive Normalises (value : DateTime) : Prop
  | normalised {c : Civil} : validateEventTimestamp value = .ok c → value.Denotes c.instant →
    Normalises value
  | rejected {message loc type : Text} : Time.requireAwareUtc value = .error (.value message) →
    validateEventTimestamp value = .error (.field loc type) →
    (∀ body, timestampMember body = some value → ∃ e, ofJson body = .error e ∧
      (Http.Response.ofInvalid e).status = 422) →
    Normalises value

theorem normalises_of_naive (h : value.offset = none) : Normalises value := by
  refine .rejected (Time.requireAwareUtc_of_naive h) (validateEventTimestamp_of_naive h)
    fun body hb => ?_
  have ho : ofJson body ≠ .error .overflow := by
    rw [Ne, ofJson_eq_overflow_iff, hb, Option.any_some, overflows_of_naive h]
    exact Bool.false_ne_true
  cases hj : ofJson body
  case error e => exact ⟨e, rfl, ofInvalid_status fun he => ho (he ▸ hj)⟩
  case ok p =>
    -- A time without an offset denotes no instant.
    obtain ⟨_, hv, o, hm, _⟩ := ofJson_denotes hj
    cases hb.symm.trans hv
    simp [h] at hm

-- The conversion to UTC overflows outside of the years 1 to 9999.
theorem not_normalises_of_not_inCalendar (h : value.Denotes i) (hi : ¬Civil.InCalendar i) :
    ¬Normalises value := by
  intro hn
  have hv := validateEventTimestamp_of_not_inCalendar h hi
  cases hn
  case normalised hn _ => cases hv.symm.trans hn
  case rejected hn _   => cases hv.symm.trans hn

theorem normalises_iff (value : DateTime) :
    Normalises value ↔ ∀ i, value.Denotes i → Civil.InCalendar i := by
  constructor
  case mp =>
    intro h i hd
    by_contra hi
    exact not_normalises_of_not_inCalendar hd hi h
  case mpr =>
    intro h
    cases ho : value.offset
    case none => exact normalises_of_naive ho
    case some o =>
      have hd : value.Denotes (value.civil.instant - o) := ⟨o, ho, rfl⟩
      obtain ⟨c, hc⟩ := Civil.exists_instant_iff.mpr (h _ hd)
      have hd : value.Denotes c.instant := hc ▸ hd
      exact .normalised (validateEventTimestamp_eq_ok_iff.mpr hd) hd

-- The end of the year 9999, an hour west of UTC.
def lastMoment : DateTime where
  civil := ⟨⟨9999, 12, 31, by decide, by decide, by decide⟩, 23, 59, 59, 999999, by decide,
    by decide, by decide, by decide⟩
  offset := some (-3600000000)
  offset_bounds _ h := by cases h; decide

theorem fromIso_lastMoment :
    DateTime.fromIso "9999-12-31T23:59:59.999999-01:00".toList = some lastMoment := by
  have ht : "9999-12-31T23:59:59.999999-01:00".toList =
      lastMoment.civil.secondText ++ (lastMoment.civil.microText ++ "-01:00".toList) := by
    decide +kernel
  rw [ht]
  exact DateTime.fromIso_append lastMoment (Numeral.NoDigit.cons.mpr rfl) (by decide) (by decide)

theorem not_normalises_lastMoment :
    DateTime.fromIso "9999-12-31T23:59:59.999999-01:00".toList = some lastMoment ∧
    ¬Normalises lastMoment := by
  refine ⟨fromIso_lastMoment, not_normalises_of_not_inCalendar ⟨_, rfl, rfl⟩ fun h => ?_⟩
  exact absurd h.2 (by decide +kernel)

end EventPayload
