import EventLedger.Base.Civil
import EventLedger.Base.Numeral

namespace Text

-- Replaces every occurrence of `old` from left to right, `skip` being what remains of the last one.
def replaceFrom (old new : Text) : ℕ → Text → Text
  | _,        []     => []
  | skip + 1, _ :: t => replaceFrom old new skip t
  | 0,        c :: t =>
    if old.isPrefixOf (c :: t) then
      new ++ replaceFrom old new (old.length - 1) t
    else
      c :: replaceFrom old new 0 t

def replace (t old new : Text) : Text :=
  replaceFrom old new 0 t

theorem replaceFrom_length (old new t : Text) : replaceFrom old new t.length t = [] := by
  induction t
  case nil => rfl
  case cons hi => exact hi

theorem replace_append (c : Char) (old new : Text) {t : Text} (h : c ∉ t) :
    replace (t ++ c :: old) (c :: old) new = t ++ new := by
  unfold replace
  induction t
  case nil =>
    rw [List.nil_append, replaceFrom, if_pos (List.isPrefixOf_iff_prefix.mpr (List.prefix_refl _))]
    simp [replaceFrom_length]
  case cons d t hi =>
    have hd : ¬(c :: old).isPrefixOf (d :: (t ++ c :: old)) := by
      intro hp
      simp only [List.isPrefixOf, Bool.and_eq_true, beq_iff_eq] at hp
      exact h (by simp [hp.1])
    rw [List.cons_append, replaceFrom, if_neg hd, hi fun hc => h (List.mem_cons_of_mem _ hc)]
    rfl

theorem utf8_cons_ascii {c : Char} (t : Text) (h : c.toNat ≤ 127) :
    utf8 (c :: t) = c.toNat :: utf8 t := by
  rw [utf8_cons, utf8EncodeChar_of_ascii h]
  rfl

theorem utf8_cons_lt_iff {c : Char} {s t : Text} (h : c.toNat ≤ 127) :
    utf8 (c :: s) < utf8 (c :: t) ↔ utf8 s < utf8 t := by
  simp [utf8_cons_ascii _ h]

theorem utf8_padded_append_lt_iff {w m n : ℕ} {s t : Text} (hm : m < 10 ^ w) (hn : n < 10 ^ w) :
    utf8 (padded w m ++ s) < utf8 (padded w n ++ t) ↔ m < n ∨ (m = n ∧ utf8 s < utf8 t) := by
  have hl : (utf8 (padded w m)).length = (utf8 (padded w n)).length := by
    simp [utf8_of_ascii (padded_ascii _ _)]
  rw [utf8_append, utf8_append, append_lt_append_iff hl, utf8_padded_lt_iff hm hn,
    utf8_injective.eq_iff, padded_inj hm hn]

end Text

theorem Date.lt_pow (d : Date) : d.year < 10 ^ 4 ∧ d.month < 10 ^ 2 ∧ d.day < 10 ^ 2 := by
  have := d.year_bounds
  have := d.month_bounds
  have := d.day_bounds
  have : ∀ leap, ∀ m ≤ 12, daysInMonth leap m ≤ 31 := by decide
  have := this (isLeap d.year) d.month (by omega)
  omega

namespace Civil

open Text

-- The text `YYYY-MM-DDTHH:MM:SS`.
def secondText (c : Civil) : Text :=
  padded 4 c.date.year ++ '-' :: (padded 2 c.date.month ++ '-' :: (padded 2 c.date.day ++
  'T' :: (padded 2 c.hour ++ ':' :: (padded 2 c.minute ++ ':' :: padded 2 c.second))))

-- The fraction of the second, left out when it is zero.
def microText (c : Civil) : Text :=
  if c.micro = 0 then [] else '.' :: padded 6 c.micro

theorem micro_lt_pow (c : Civil) : c.micro < 10 ^ 6 := by
  rw [show 10 ^ 6 = 1000000 by norm_num]
  exact c.micro_lt

-- The order of the texts is first that of the seconds.
theorem secondText_append_lt_iff {a b : Civil} {s t : Text} :
    utf8 (a.secondText ++ s) < utf8 (b.secondText ++ t) ↔
    a.wholeSecond < b.wholeSecond ∨ (a.wholeSecond = b.wholeSecond ∧ utf8 s < utf8 t) := by
  have ⟨_, _, _⟩ := a.clock_lt
  have ⟨_, _, _⟩ := b.clock_lt
  have ⟨hy, hm, hd⟩ := a.date.lt_pow
  have ⟨hy', hm', hd'⟩ := b.date.lt_pow
  have he : a.wholeSecond = b.wholeSecond ↔ a.date.year = b.date.year ∧
      a.date.month = b.date.month ∧ a.date.day = b.date.day ∧ a.hour = b.hour ∧
      a.minute = b.minute ∧ a.second = b.second := by
    constructor
    case mp =>
      intro h
      have ⟨hd, hh, hm, hs⟩ := wholeSecond_inj h
      simp [hd, hh, hm, hs]
    case mpr =>
      intro ⟨hy, hm, hd, hh, hi, hs⟩
      simp only [wholeSecond, Date.ext hy hm hd, hh, hi, hs]
  have ho : a.date.ordinal = b.date.ordinal ↔ a.date.year = b.date.year ∧
      a.date.month = b.date.month ∧ a.date.day = b.date.day := by
    rw [Date.ordinal_injective.eq_iff, Date.ext_iff]
  simp only [secondText, List.append_assoc, List.cons_append]
  rw [utf8_padded_append_lt_iff hy hy', utf8_cons_lt_iff (by decide),
    utf8_padded_append_lt_iff hm hm', utf8_cons_lt_iff (by decide),
    utf8_padded_append_lt_iff hd hd', utf8_cons_lt_iff (by decide),
    utf8_padded_append_lt_iff (by omega) (by omega), utf8_cons_lt_iff (by decide),
    utf8_padded_append_lt_iff (by omega) (by omega), utf8_cons_lt_iff (by decide),
    utf8_padded_append_lt_iff (by omega) (by omega), wholeSecond_lt_iff, Date.ordinal_lt_iff,
    he, ho]
  by_cases h : utf8 s < utf8 t <;> simp only [h, and_true, and_false, or_false] <;> omega

-- The fraction's mark comes before the mark of UTC, so that a fraction comes before no fraction.
theorem microText_lt_iff {a b : Civil} :
    utf8 (a.microText ++ ['Z']) < utf8 (b.microText ++ ['Z']) ↔
    a.micro ≠ 0 ∧ (b.micro = 0 ∨ a.micro < b.micro) := by
  have hz : utf8 ['Z'] = [90] := by decide
  have hd : ∀ t : Text, utf8 ('.' :: t) = 46 :: utf8 t := fun t => utf8_cons_ascii t (by decide)
  by_cases ha : a.micro = 0
  case pos =>
    have h : ¬utf8 ['Z'] < utf8 (b.microText ++ ['Z']) := by
      by_cases hb : b.micro = 0
      case pos => simp [microText, hb]
      case neg => simp [microText, hb, hz, hd, List.cons_lt_cons_iff, -List.not_lt]
    simpa [ha, show a.microText = [] by simp [microText, ha]] using h
  case neg =>
    by_cases hb : b.micro = 0
    case pos => simp [microText, ha, hb, hz, hd, List.cons_lt_cons_iff]
    case neg =>
      simp only [microText, ha, hb, if_false, List.cons_append]
      rw [utf8_cons_lt_iff (by decide), utf8_padded_append_lt_iff a.micro_lt_pow b.micro_lt_pow]
      simp [ha]

-- Two times within one second of which exactly one has a fraction.
def SplitsSecond (a b : Civil) : Prop :=
  a.wholeSecond = b.wholeSecond ∧ ¬(a.micro = 0 ↔ b.micro = 0)

theorem text_lt_iff {a b : Civil} (h : ¬SplitsSecond a b) :
    utf8 (a.secondText ++ (a.microText ++ ['Z'])) < utf8 (b.secondText ++ (b.microText ++ ['Z'])) ↔
    a.instant < b.instant := by
  rw [secondText_append_lt_iff, microText_lt_iff, instant_lt_iff]
  unfold SplitsSecond at h
  omega

theorem text_lt_of_splitsSecond {a b : Civil} (h : SplitsSecond a b) (hl : a.instant < b.instant) :
    utf8 (b.secondText ++ (b.microText ++ ['Z'])) <
      utf8 (a.secondText ++ (a.microText ++ ['Z'])) := by
  rw [instant_lt_iff] at hl
  rw [secondText_append_lt_iff, microText_lt_iff]
  unfold SplitsSecond at h
  omega

end Civil

namespace Iso

open Text

def scanDigits (w : ℕ) (t : Text) : Option (ℕ × Text) :=
  if (t.take w).length = w && (t.take w).all Char.isDigit then
    some (Nat.ofDigitChars 10 (t.take w) 0, t.drop w)
  else
    none

theorem scanDigits_padded {w n : ℕ} (h : n < 10 ^ w) (t : Text) :
    scanDigits w (padded w n ++ t) = some (n, t) := by
  have ht : (padded w n ++ t).take w = padded w n := by simp
  have hd : (padded w n ++ t).drop w = t := by simp
  have ha : (padded w n).all Char.isDigit := List.all_eq_true.mpr fun _ => padded_isDigit
  simp [scanDigits, ht, hd, ha, ofDigitChars_padded h]

def scanMark (c : Char) : Text → Option Text
  | []     => none
  | d :: t => if d = c then some t else none

@[simp]
theorem scanMark_cons (c : Char) (t : Text) : scanMark c (c :: t) = some t := by
  simp [scanMark]

-- Digits of the fraction beyond the sixth are dropped.
def scanFraction : Text → Option (ℕ × Text)
  | '.' :: t =>
    match Numeral.spanDigits t with
    | ([], _) => none
    | (ds, r) => some (Nat.ofDigitChars 10 ((ds ++ List.replicate 6 '0').take 6) 0, r)
  | t        => some (0, t)

-- The offset in microseconds, if the text has one.
def scanOffset : Text → Option (Option ℤ)
  | []     => some none
  | 'Z' :: t => if t = [] then some (some 0) else none
  | c :: t => do
    let (hours, t) ← scanDigits 2 t
    let (minutes, t) ← scanDigits 2 (if t.head? = some ':' then t.tail else t)
    let micros : ℤ := (hours * 60 + minutes) * 60000000
    if t ≠ [] || 60 ≤ minutes then none
    else if c = '+' then some (some micros)
    else if c = '-' then some (some (-micros))
    else none

end Iso

def Date.ofFields (year month day : ℕ) : Option Date :=
  if h : (1 ≤ year ∧ year ≤ 9999) ∧ (1 ≤ month ∧ month ≤ 12) ∧
      1 ≤ day ∧ day ≤ daysInMonth (isLeap year) month then
    some ⟨year, month, day, h.1, h.2.1, h.2.2⟩
  else
    none

theorem Date.ofFields_self (d : Date) : ofFields d.year d.month d.day = some d :=
  dif_pos ⟨d.year_bounds, d.month_bounds, d.day_bounds⟩

def Civil.ofFields (date : Date) (hour minute second micro : ℕ) : Option Civil :=
  if h : hour < 24 ∧ minute < 60 ∧ second < 60 ∧ micro < 1000000 then
    some ⟨date, hour, minute, second, micro, h.1, h.2.1, h.2.2.1, h.2.2.2⟩
  else
    none

theorem Civil.ofFields_self (c : Civil) :
    ofFields c.date c.hour c.minute c.second c.micro = some c :=
  dif_pos ⟨c.hour_lt, c.minute_lt, c.second_lt, c.micro_lt⟩

namespace Iso

open Text

def scanDate (t : Text) : Option (Date × Text) := do
  let (year, t) ← scanDigits 4 t
  let t ← scanMark '-' t
  let (month, t) ← scanDigits 2 t
  let t ← scanMark '-' t
  let (day, t) ← scanDigits 2 t
  let date ← Date.ofFields year month day
  some (date, t)

def scanClock (t : Text) : Option ((ℕ × ℕ × ℕ) × Text) := do
  let (hour, t) ← scanDigits 2 t
  let t ← scanMark ':' t
  let (minute, t) ← scanDigits 2 t
  let t ← scanMark ':' t
  let (second, t) ← scanDigits 2 t
  some ((hour, minute, second), t)

def scanCivil (t : Text) : Option (Civil × Text) := do
  let (date, t) ← scanDate t
  let t ← scanMark 'T' t
  let ((hour, minute, second), t) ← scanClock t
  let (micro, t) ← scanFraction t
  let civil ← Civil.ofFields date hour minute second micro
  some (civil, t)

theorem scanDate_text (d : Date) (t : Text) :
    scanDate (padded 4 d.year ++ '-' :: (padded 2 d.month ++ '-' :: (padded 2 d.day ++ t))) =
    some (d, t) := by
  have ⟨hy, hm, hd⟩ := d.lt_pow
  simp only [scanDate, scanDigits_padded hy, scanDigits_padded hm, scanDigits_padded hd,
    scanMark_cons, Date.ofFields_self, Option.bind_eq_bind, Option.bind_some]

theorem scanClock_text (c : Civil) (t : Text) :
    scanClock (padded 2 c.hour ++ ':' :: (padded 2 c.minute ++ ':' :: (padded 2 c.second ++ t))) =
    some ((c.hour, c.minute, c.second), t) := by
  have ⟨hh, hm, hs⟩ := c.clock_lt
  have hh : c.hour < 10 ^ 2 := by omega
  have hm : c.minute < 10 ^ 2 := by omega
  have hs : c.second < 10 ^ 2 := by omega
  simp only [scanClock, scanDigits_padded hh, scanDigits_padded hm, scanDigits_padded hs,
    scanMark_cons, Option.bind_eq_bind, Option.bind_some]

theorem scanFraction_microText (c : Civil) {t : Text} (h : Numeral.NoDigit t)
    (hd : t.head? ≠ some '.') : scanFraction (c.microText ++ t) = some (c.micro, t) := by
  unfold Civil.microText
  split
  case isTrue hm =>
    rw [List.nil_append, scanFraction.eq_def]
    split
    case h_1 => simp at hd
    case h_2 => rw [hm]
  case isFalse hm =>
    have hs : Numeral.spanDigits (padded 6 c.micro ++ t) = (padded 6 c.micro, t) :=
      Numeral.spanDigits_append (fun _ => padded_isDigit) h
    have ht : (padded 6 c.micro ++ List.replicate 6 '0').take 6 = padded 6 c.micro := by simp
    have hl := padded_length 6 c.micro
    have hv := ofDigitChars_padded c.micro_lt_pow
    rw [List.cons_append, scanFraction, hs]
    generalize padded 6 c.micro = ds at *
    cases ds
    case nil => simp at hl
    case cons => simp only [ht, hv]

theorem scanCivil_text (c : Civil) {t : Text} (h : Numeral.NoDigit t) (hd : t.head? ≠ some '.') :
    scanCivil (c.secondText ++ (c.microText ++ t)) = some (c, t) := by
  simp only [scanCivil, Civil.secondText, List.append_assoc, List.cons_append, scanDate_text,
    scanMark_cons, scanClock_text, scanFraction_microText c h hd, Civil.ofFields_self,
    Option.bind_eq_bind, Option.bind_some]

end Iso

namespace DateTime

open Text Iso

def ofFields (civil : Civil) (offset : Option ℤ) : Option DateTime :=
  if h : ∀ o ∈ offset, -(microsPerDay : ℤ) < o ∧ o < microsPerDay then
    some ⟨civil, offset, h⟩
  else
    none

-- Reads the extended format of ISO 8601.
def fromIso (t : Text) : Option DateTime := do
  let (civil, t) ← scanCivil t
  let offset ← scanOffset t
  ofFields civil offset

-- The text of a time is read back, in whichever way its offset is written.
theorem fromIso_append (d : DateTime) {z : Text} (h : Numeral.NoDigit z)
    (hz : z.head? ≠ some '.') (ho : scanOffset z = some d.offset) :
    fromIso (d.civil.secondText ++ (d.civil.microText ++ z)) = some d := by
  have hf : ofFields d.civil d.offset = some d := dif_pos d.offset_bounds
  simp only [fromIso, scanCivil_text d.civil h hz, ho, hf, Option.bind_eq_bind, Option.bind_some]

theorem fromIso_utc (c : Civil) {z : Text} (h : z = ['Z'] ∨ z = "+00:00".toList) :
    fromIso (c.secondText ++ (c.microText ++ z)) = some (utc c) := by
  have hn : Numeral.NoDigit z := by cases h <;> subst z <;> exact Numeral.NoDigit.cons.mpr rfl
  have hz : z.head? ≠ some '.' := by cases h <;> subst z <;> decide
  have ho : scanOffset z = some (some 0) := by cases h <;> subst z <;> decide
  exact fromIso_append (utc c) hn hz ho

end DateTime
