import EventLedger.Base.Numeral
import Mathlib.Data.Nat.Cast.Field
import Mathlib.Tactic.Ring

-- The quotient `n / d` rounded to the nearest integer, ties to the even one.
def roundHalfEven (n d : ℕ) : ℕ :=
  let q := n / d
  let r := n % d
  if 2 * r < d ∨ (2 * r = d ∧ q % 2 = 0) then q else q + 1

theorem roundHalfEven_of_dvd {n d : ℕ} (hd : 0 < d) (h : d ∣ n) : roundHalfEven n d = n / d := by
  simp [roundHalfEven, Nat.mod_eq_zero_of_dvd h, hd]

-- The rounding keeps the order of the quotients.
theorem roundHalfEven_mono {n d n' d' : ℕ} (hd : 0 < d) (hd' : 0 < d') (h : n * d' ≤ n' * d) :
    roundHalfEven n d ≤ roundHalfEven n' d' := by
  have hn := Nat.div_add_mod n d
  have hn' := Nat.div_add_mod n' d'
  have hq : n / d ≤ n' / d' := by
    rw [Nat.le_div_iff_mul_le hd']
    refine Nat.le_of_mul_le_mul_right ?_ hd
    calc n / d * d' * d = n / d * d * d' := mul_right_comm ..
      _ ≤ n * d' := Nat.mul_le_mul_right _ (Nat.div_mul_le_self n d)
      _ ≤ n' * d := h
  simp only [roundHalfEven]
  split_ifs with h₁ h₂ h₂
  case pos => exact hq
  case neg => omega
  case neg => omega
  case pos =>
    by_contra hlt
    have he : n / d = n' / d' := by omega
    have hr : n % d * d' ≤ n' % d' * d := by
      rw [← hn, ← hn', he] at h
      nlinarith
    rcases h₂ with h₂ | h₂
    case inl =>
      have hlow : 2 * (n % d) * d' < d * d' := by nlinarith
      have := Nat.lt_of_mul_lt_mul_right hlow
      omega
    case inr =>
      have hlow : 2 * (n % d) * d' ≤ d * d' := by nlinarith [h₂.1]
      have := Nat.le_of_mul_le_mul_right hlow hd'
      omega

namespace Decimal

theorem value_mk (neg : Bool) (c : ℕ) (e : ℤ) :
    value ⟨neg, c, e⟩ = (if neg then -1 else 1) * (c : ℚ) * 10 ^ e := by
  cases neg <;> simp [value, signed]

theorem abs_value (d : Decimal) : |d.value| = d.coeff * 10 ^ d.exp := by
  have hp : (0 : ℚ) < 10 ^ d.exp := by positivity
  rw [value, abs_mul, abs_of_pos hp]
  congr 1
  cases h : d.neg <;> simp [signed, h]

def digits (d : Decimal) : ℕ :=
  (Nat.toDigits 10 d.coeff).length

theorem digits_pos (d : Decimal) : 0 < d.digits :=
  Nat.length_toDigits_pos

theorem digits_le_iff {d : Decimal} {p : ℕ} (hp : 0 < p) : d.digits ≤ p ↔ d.coeff < 10 ^ p :=
  Nat.length_toDigits_le_iff (by decide) hp

-- The power of ten of the first digit.
def adjusted (d : Decimal) : ℤ :=
  d.exp + d.digits - 1

theorem abs_value_lt (d : Decimal) : |d.value| < 10 ^ (d.adjusted + 1) := by
  have hc : (d.coeff : ℚ) < 10 ^ (d.digits : ℤ) := by
    rw [zpow_natCast]
    exact_mod_cast (digits_le_iff d.digits_pos).mp le_rfl
  calc |d.value| = d.coeff * 10 ^ d.exp := d.abs_value
    _ < 10 ^ (d.digits : ℤ) * 10 ^ d.exp := mul_lt_mul_of_pos_right hc (by positivity)
    _ = 10 ^ (d.adjusted + 1) := by
      rw [← zpow_add₀ (by norm_num), adjusted]
      congr 1
      omega

theorem le_abs_value {d : Decimal} (h : d.coeff ≠ 0) : 10 ^ d.adjusted ≤ |d.value| := by
  have hd := d.digits_pos
  have hc : 10 ^ (d.digits - 1) ≤ d.coeff := by
    by_contra hlt
    by_cases h1 : d.digits = 1
    case pos => simp [h1] at hlt; omega
    case neg =>
      have := (digits_le_iff (d := d) (p := d.digits - 1) (by omega)).mpr (by omega)
      omega
  have hc : (10 : ℚ) ^ ((d.digits - 1 : ℕ) : ℤ) ≤ d.coeff := by
    rw [zpow_natCast]
    exact_mod_cast hc
  calc (10 : ℚ) ^ d.adjusted = 10 ^ ((d.digits - 1 : ℕ) : ℤ) * 10 ^ d.exp := by
        rw [← zpow_add₀ (by norm_num), adjusted]
        congr 1
        omega
    _ ≤ d.coeff * 10 ^ d.exp := mul_le_mul_of_nonneg_right hc (by positivity)
    _ = |d.value| := d.abs_value.symm

-- The number of units of `10^e` that a decimal has, half to even.
def roundTo (d : Decimal) (e : ℤ) : ℕ :=
  roundHalfEven (d.coeff * 10 ^ (d.exp - e).toNat) (10 ^ (e - d.exp).toNat)

theorem ten_pow_toNat (x : ℤ) : (10 : ℚ) ^ x.toNat = 10 ^ x * 10 ^ (-x).toNat := by
  rw [← zpow_natCast, ← zpow_natCast, ← zpow_add₀ (by norm_num)]
  congr 1
  omega

-- The quotient that is rounded is the magnitude in units of `10^e`.
theorem roundTo_quotient (d : Decimal) (e : ℤ) :
    ((d.coeff * 10 ^ (d.exp - e).toNat : ℕ) : ℚ) * 10 ^ e =
      |d.value| * (10 ^ (e - d.exp).toNat : ℕ) := by
  have ht := ten_pow_toNat (d.exp - e)
  rw [neg_sub, zpow_sub₀ (by norm_num)] at ht
  push_cast
  rw [d.abs_value, ht]
  field_simp

theorem roundTo_mono {d d' : Decimal} (h : |d.value| ≤ |d'.value|) (e : ℤ) :
    d.roundTo e ≤ d'.roundTo e := by
  apply roundHalfEven_mono (by positivity) (by positivity)
  have hp : (0 : ℚ) < 10 ^ e := by positivity
  have hm : ((d.coeff * 10 ^ (d.exp - e).toNat : ℕ) : ℚ) * (10 ^ (e - d'.exp).toNat : ℕ) * 10 ^ e ≤
      (d'.coeff * 10 ^ (d'.exp - e).toNat : ℕ) * (10 ^ (e - d.exp).toNat : ℕ) * 10 ^ e := by
    calc ((d.coeff * 10 ^ (d.exp - e).toNat : ℕ) : ℚ) * (10 ^ (e - d'.exp).toNat : ℕ) * 10 ^ e
        = |d.value| * (10 ^ (e - d.exp).toNat : ℕ) * (10 ^ (e - d'.exp).toNat : ℕ) := by
          rw [mul_right_comm, d.roundTo_quotient]
      _ ≤ |d'.value| * (10 ^ (e - d.exp).toNat : ℕ) * (10 ^ (e - d'.exp).toNat : ℕ) := by gcongr
      _ = |d'.value| * (10 ^ (e - d'.exp).toNat : ℕ) * (10 ^ (e - d.exp).toNat : ℕ) :=
          mul_right_comm ..
      _ = (d'.coeff * 10 ^ (d'.exp - e).toNat : ℕ) * (10 ^ (e - d.exp).toNat : ℕ) * 10 ^ e := by
          rw [← d'.roundTo_quotient, mul_right_comm]
  exact_mod_cast le_of_mul_le_mul_right hm hp

theorem roundTo_of_eq {d : Decimal} {m : ℕ} {e : ℤ} (h : |d.value| = m * 10 ^ e) :
    d.roundTo e = m := by
  have hq := d.roundTo_quotient e
  rw [h, mul_right_comm] at hq
  have hn : d.coeff * 10 ^ (d.exp - e).toNat = m * 10 ^ (e - d.exp).toNat := by
    exact_mod_cast mul_right_cancel₀ (by positivity) hq
  have hp : 0 < 10 ^ (e - d.exp).toNat := by positivity
  rw [roundTo, roundHalfEven_of_dvd hp ⟨m, by rw [hn, mul_comm]⟩, hn, Nat.mul_div_cancel _ hp]

theorem roundTo_le {d : Decimal} {m : ℕ} {e : ℤ} (h : |d.value| ≤ m * 10 ^ e) :
    d.roundTo e ≤ m := by
  have hv : |value ⟨false, m, e⟩| = m * 10 ^ e := abs_value _
  exact roundTo_of_eq hv ▸ roundTo_mono (hv ▸ h) e

theorem le_roundTo {d : Decimal} {m : ℕ} {e : ℤ} (h : m * 10 ^ e ≤ |d.value|) :
    m ≤ d.roundTo e := by
  have hv : |value ⟨false, m, e⟩| = m * 10 ^ e := abs_value _
  exact roundTo_of_eq hv ▸ roundTo_mono (hv ▸ h) e

def zero : Decimal :=
  ⟨false, 0, 0⟩

@[simp]
theorem zero_value : zero.value = 0 := by
  simp [zero, value, signed]

-- The sum before it is rounded.
def plus (a b : Decimal) : Decimal :=
  let e := min a.exp b.exp
  let s := a.scaled e + b.scaled e
  ⟨s < 0 || (s = 0 && a.neg && b.neg), s.natAbs, e⟩

-- The negation before it is rounded; that of zero has no sign.
def negate (a : Decimal) : Decimal :=
  { a with neg := !a.neg && a.coeff ≠ 0 }

@[simp]
theorem plus_value (a b : Decimal) : (plus a b).value = a.value + b.value := by
  let s := a.scaled (min a.exp b.exp) + b.scaled (min a.exp b.exp)
  have hs : (plus a b).signed = s := by
    simp only [plus, signed, s, Bool.or_eq_true, decide_eq_true_eq, Bool.and_eq_true]
    split <;> omega
  rw [value, hs, value_eq_scaled (min_le_left a.exp b.exp),
    value_eq_scaled (min_le_right a.exp b.exp), ← add_mul, ← Int.cast_add]
  rfl

@[simp]
theorem negate_value (a : Decimal) : a.negate.value = -a.value := by
  have : a.negate.signed = -a.signed := by
    cases h : a.neg <;> by_cases hc : a.coeff = 0 <;> simp [negate, signed, h, hc]
  rw [value, this, value]
  push_cast
  rw [neg_mul]
  rfl

-- The parts of the text of a decimal: positional when no zeros stand for lost digits and the
-- number is not too small, scientific with one digit before the point otherwise.
def numeral (d : Decimal) : Numeral :=
  let ds := Nat.toDigits 10 d.coeff
  let left := d.exp + ds.length
  if d.exp ≤ 0 ∧ -6 < left then
    if left ≤ 0 then
      { neg := d.neg, int := ['0'], frac := List.replicate (-left).toNat '0' ++ ds, exp := none }
    else
      { neg := d.neg, int := ds.take left.toNat, frac := ds.drop left.toNat, exp := none }
  else
    { neg := d.neg, int := ds.take 1, frac := ds.drop 1, exp := some (left - 1) }

def str (d : Decimal) : Text :=
  d.numeral.text 'E' 1

def ofText (t : Text) : Option Decimal :=
  (Numeral.scan t).map Numeral.decimal

theorem take_digits_wf {n k : ℕ} (hk : 0 < k) (neg : Bool) (exp : Option ℤ) :
    Numeral.WF ⟨neg, (Nat.toDigits 10 n).take k, (Nat.toDigits 10 n).drop k, exp⟩ where
  int_ne_nil := by simp [List.take_eq_nil_iff]; omega
  int_digits _ h := Numeral.toDigits_isDigit (List.mem_of_mem_take h)
  frac_digits _ h := Numeral.toDigits_isDigit (List.mem_of_mem_drop h)
  int_head t h := by
    have hc := List.take_append_drop k (Nat.toDigits 10 n)
    have ht : (Nat.toDigits 10 n).take k = '0' :: t := h
    rw [ht, List.cons_append] at hc
    exact (List.append_eq_nil_iff.mp (Numeral.toDigits_head hc.symm)).1

theorem numeral_wf (d : Decimal) : d.numeral.WF := by
  simp only [numeral]
  split_ifs
  case pos =>
    refine ⟨by simp, by simp, fun c h => ?_, by simp⟩
    simp only [List.mem_append, List.mem_replicate] at h
    cases h
    case inl h => rw [h.2]; decide
    case inr h => exact Numeral.toDigits_isDigit h
  case neg => exact take_digits_wf (by omega) ..
  case neg => exact take_digits_wf (by decide) ..

theorem numeral_decimal (d : Decimal) : d.numeral.decimal = d := by
  have hd : Nat.ofDigitChars 10 (Nat.toDigits 10 d.coeff) 0 = d.coeff :=
    Nat.ofDigitChars_ten_toDigits
  have hl : 0 < (Nat.toDigits 10 d.coeff).length := Nat.length_toDigits_pos
  simp only [numeral]
  split_ifs
  case pos =>
    have hz : Nat.ofDigitChars 10 ['0'] 0 = 0 := rfl
    simp only [Numeral.decimal, Nat.ofDigitChars_append, Nat.ofDigitChars_replicate_zero, mul_zero,
      hz, hd, Option.getD_none, List.length_append, List.length_replicate]
    congr 1
    omega
  case neg =>
    simp only [Numeral.decimal, List.take_append_drop, hd, Option.getD_none, List.length_drop]
    congr 1
    omega
  case neg =>
    simp only [Numeral.decimal, List.take_append_drop, hd, Option.getD_some, List.length_drop]
    congr 1
    omega

theorem ofText_str (d : Decimal) : ofText d.str = some d := by
  simp [ofText, str, Numeral.scan_text d.numeral_wf, numeral_decimal]

end Decimal
