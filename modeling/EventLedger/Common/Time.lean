import EventLedger.Base.Iso

namespace Time

inductive Failure
  -- ValueError, with its message
  | value (message : Text)
  -- OverflowError
  | overflow
  deriving DecidableEq

def naiveMessage : Text :=
  "timestamp must include a timezone".toList

-- `astimezone` overflows when the instant in UTC lies outside of the years 1 to 9999.
def inCalendar : Option Civil → Except Failure Civil
  | none   => .error .overflow
  | some c => .ok c

def requireAwareUtc (value : DateTime) : Except Failure Civil :=
  match value.offset with
  | none   => .error (.value naiveMessage)
  | some o => inCalendar (value.toUtc o)

-- `isoformat` of a time in UTC.
def isoformat (normalized : Civil) : Text :=
  normalized.secondText ++ (normalized.microText ++ "+00:00".toList)

-- `format_timestamp` of a time that is in UTC.
def formatUtc (normalized : Civil) : Text :=
  (isoformat normalized).replace "+00:00".toList "Z".toList

def formatTimestamp (value : DateTime) : Except Failure Text :=
  (requireAwareUtc value).map formatUtc

def parseTimestamp (value : Text) : Except Failure Civil :=
  match DateTime.fromIso (value.replace "Z".toList "+00:00".toList) with
  | none   => .error (.value ("Invalid isoformat string: ".toList ++ value))
  | some d => requireAwareUtc d

theorem requireAwareUtc_utc (c : Civil) : requireAwareUtc (.utc c) = .ok c :=
  congrArg inCalendar (DateTime.toUtc_utc c)

section Normalisation

variable {d : DateTime} {c : Civil} {i : ℤ}

theorem requireAwareUtc_of_offset {o : ℤ} (h : d.offset = some o) :
    requireAwareUtc d = inCalendar (d.toUtc o) := by
  rw [requireAwareUtc, h]

-- The three ways in which the normalisation of a time ends.
theorem requireAwareUtc_eq_ok_iff : requireAwareUtc d = .ok c ↔ d.Denotes c.instant := by
  cases ho : d.offset
  case none =>
    refine iff_of_false ?_ fun ⟨_, h, _⟩ => by simp [ho] at h
    simp [requireAwareUtc, ho]
  case some o =>
    have hd : d.Denotes c.instant ↔ (c.instant : ℤ) = d.civil.instant - o := by
      simp [DateTime.Denotes, ho]
    rw [hd, ← DateTime.toUtc_eq_some_iff, requireAwareUtc_of_offset ho]
    cases d.toUtc o <;> simp [inCalendar]

theorem requireAwareUtc_of_naive (h : d.offset = none) :
    requireAwareUtc d = .error (.value naiveMessage) := by
  rw [requireAwareUtc, h]

theorem requireAwareUtc_of_not_inCalendar (h : d.Denotes i) (hi : ¬Civil.InCalendar i) :
    requireAwareUtc d = .error .overflow := by
  obtain ⟨o, ho, rfl⟩ := h
  rw [requireAwareUtc_of_offset ho, DateTime.toUtc_eq_none_iff.mpr hi, inCalendar]

end Normalisation

-- The characters of the digits and of the marks between them.
theorem not_mem_padded {c : Char} (h : c.isDigit = false) (w n : ℕ) : c ∉ Text.padded w n := by
  intro hc
  simp [Text.padded_isDigit hc] at h

theorem not_mem_text {c : Char} (hd : c.isDigit = false)
    (hm : c ≠ '-' ∧ c ≠ 'T' ∧ c ≠ ':' ∧ c ≠ '.') (d : Civil) :
    c ∉ d.secondText ++ d.microText := by
  have hp := not_mem_padded hd
  have hu : c ∉ d.microText := by
    unfold Civil.microText
    split <;> simp [hp, hm]
  simp [Civil.secondText, hp, hu, hm]

theorem formatUtc_eq (c : Civil) : formatUtc c = c.secondText ++ (c.microText ++ ['Z']) := by
  have h := Text.replace_append '+' "00:00".toList "Z".toList
    (not_mem_text rfl (by decide) c)
  simpa [formatUtc, isoformat] using h

-- What `format_timestamp` writes, `parse_timestamp` reads back.
theorem parseTimestamp_formatUtc (c : Civil) : parseTimestamp (formatUtc c) = .ok c := by
  have h := Text.replace_append 'Z' [] "+00:00".toList
    (not_mem_text rfl (by decide) c)
  have hr : (formatUtc c).replace "Z".toList "+00:00".toList =
      c.secondText ++ (c.microText ++ "+00:00".toList) := by
    simpa [formatUtc_eq] using h
  simp only [parseTimestamp, hr, DateTime.fromIso_utc c (.inr rfl), requireAwareUtc_utc]

theorem formatTimestamp_of_denotes {d : DateTime} {c : Civil} (h : d.Denotes c.instant) :
    formatTimestamp d = .ok (formatUtc c) := by
  rw [formatTimestamp, requireAwareUtc_eq_ok_iff.mpr h]
  rfl

-- The text is read back as a time in UTC at the same instant, whose text it is again.
theorem formatTimestamp_roundtrip {d : DateTime} {i : ℤ} (h : d.Denotes i)
    (hi : Civil.InCalendar i) : ∃ t c, formatTimestamp d = .ok t ∧ parseTimestamp t = .ok c ∧
    (DateTime.utc c).Denotes i ∧ formatTimestamp (.utc c) = .ok t := by
  obtain ⟨c, rfl⟩ := Civil.exists_instant_iff.mpr hi
  have hc := DateTime.denotes_utc c
  exact ⟨formatUtc c, c, formatTimestamp_of_denotes h, parseTimestamp_formatUtc c, hc,
    formatTimestamp_of_denotes hc⟩

-- Half past midnight of New Year's Day, an hour east of UTC.
def newYear : DateTime where
  civil := ⟨⟨2025, 1, 1, by decide, by decide, by decide⟩, 0, 30, 0, 1, by decide, by decide,
    by decide, by decide⟩
  offset := some 3600000000
  offset_bounds _ h := by cases h; decide

theorem formatTimestamp_roundtrip_newYear :
    formatTimestamp newYear = .ok "2024-12-31T23:30:00.000001Z".toList ∧
    ∃ t c, formatTimestamp newYear = .ok t ∧ parseTimestamp t = .ok c ∧
      (DateTime.utc c).Denotes 63871284600000001 ∧ formatTimestamp (.utc c) = .ok t :=
  ⟨by decide +kernel, formatTimestamp_roundtrip ⟨_, rfl, by decide +kernel⟩ ⟨by decide, by decide⟩⟩

theorem fromIso_formatUtc (c : Civil) : DateTime.fromIso (formatUtc c) = some (.utc c) := by
  rw [formatUtc_eq, DateTime.fromIso_utc c (.inl rfl)]

theorem formatUtc_injective : Function.Injective formatUtc := by
  intro c d h
  have := parseTimestamp_formatUtc d
  rw [← h, parseTimestamp_formatUtc, Except.ok.injEq] at this
  exact this

-- The order of the stored texts is that of the instants, except within a second.
theorem formatUtc_lt_iff {a b : Civil} (h : ¬Civil.SplitsSecond a b) :
    Text.utf8 (formatUtc a) < Text.utf8 (formatUtc b) ↔ a.instant < b.instant := by
  rw [formatUtc_eq, formatUtc_eq, Civil.text_lt_iff h]

theorem formatUtc_lt_of_splitsSecond {a b : Civil} (h : Civil.SplitsSecond a b)
    (hl : a.instant < b.instant) : Text.utf8 (formatUtc b) < Text.utf8 (formatUtc a) := by
  rw [formatUtc_eq, formatUtc_eq]
  exact Civil.text_lt_of_splitsSecond h hl

end Time
