import EventLedger.Base.Decimal

theorem roundHalfEven_mul {n d k : ℕ} (hk : 0 < k) :
    roundHalfEven (n * k) (d * k) = roundHalfEven n d := by
  have h₁ : 2 * (n % d * k) < d * k ↔ 2 * (n % d) < d := by
    rw [← mul_assoc, Nat.mul_lt_mul_right hk]
  have h₂ : 2 * (n % d * k) = d * k ↔ 2 * (n % d) = d := by
    rw [← mul_assoc, Nat.mul_left_inj (by omega)]
  simp only [roundHalfEven, Nat.mul_div_mul_right _ _ hk, Nat.mul_mod_mul_right, h₁, h₂]

-- Rounding sees the value of the fraction only.
theorem roundHalfEven_congr {n d n' d' : ℕ} (hd : 0 < d) (hd' : 0 < d') (h : n * d' = n' * d) :
    roundHalfEven n d = roundHalfEven n' d' := by
  rw [← roundHalfEven_mul hd', h, ← roundHalfEven_mul (n := n') (d := d') hd, mul_comm d d']

-- The largest `k` such that `2^k ≤ n / d`.
def floorLog2 (n d : ℕ) : ℤ :=
  let b : ℤ := n.log2 - d.log2
  if d * 2 ^ b.toNat ≤ n * 2 ^ (-b).toNat then b else b - 1

theorem mul_two_pow_le_iff {n d : ℕ} (b : ℤ) :
    d * 2 ^ b.toNat ≤ n * 2 ^ (-b).toNat ↔ (d : ℚ) * 2 ^ b ≤ n := by
  have hb : (2 : ℚ) ^ b = 2 ^ b.toNat / 2 ^ (-b).toNat := by
    rw [eq_div_iff (by positivity), ← zpow_natCast, ← zpow_natCast, ← zpow_add₀ (by norm_num)]
    congr 1
    omega
  have hp : (0 : ℚ) < 2 ^ (-b).toNat := by positivity
  rw [hb, ← mul_div_assoc, div_le_iff₀ hp]
  exact_mod_cast Iff.rfl

theorem floorLog2_spec {n d : ℕ} (hn : 0 < n) (hd : 0 < d) :
    (d : ℚ) * 2 ^ floorLog2 n d ≤ n ∧ n < (d : ℚ) * 2 ^ (floorLog2 n d + 1) := by
  have hn₁ : (2 : ℚ) ^ (n.log2 : ℤ) ≤ n := by
    rw [zpow_natCast]; exact_mod_cast Nat.log2_self_le (by omega)
  have hn₂ : (n : ℚ) < 2 ^ (n.log2 + 1 : ℤ) := by
    rw [← Nat.cast_succ, zpow_natCast]; exact_mod_cast Nat.lt_log2_self
  have hd₁ : (2 : ℚ) ^ (d.log2 : ℤ) ≤ d := by
    rw [zpow_natCast]; exact_mod_cast Nat.log2_self_le (by omega)
  have hd₂ : (d : ℚ) < 2 ^ (d.log2 + 1 : ℤ) := by
    rw [← Nat.cast_succ, zpow_natCast]; exact_mod_cast Nat.lt_log2_self
  simp only [floorLog2, mul_two_pow_le_iff]
  split
  case isTrue h =>
    refine ⟨h, lt_of_lt_of_le hn₂ ?_⟩
    calc (2 : ℚ) ^ (n.log2 + 1 : ℤ)
        = 2 ^ (d.log2 : ℤ) * 2 ^ ((n.log2 : ℤ) - d.log2 + 1) := by
          rw [← zpow_add₀ (by norm_num)]
          congr 1
          omega
      _ ≤ d * 2 ^ ((n.log2 : ℤ) - d.log2 + 1) := mul_le_mul_of_nonneg_right hd₁ (by positivity)
  case isFalse h =>
    rw [not_le] at h
    refine ⟨le_trans ?_ hn₁, by simpa using h⟩
    calc (d : ℚ) * 2 ^ ((n.log2 : ℤ) - d.log2 - 1)
        ≤ 2 ^ (d.log2 + 1 : ℤ) * 2 ^ ((n.log2 : ℤ) - d.log2 - 1) :=
          mul_le_mul_of_nonneg_right hd₂.le (by positivity)
      _ = 2 ^ (n.log2 : ℤ) := by
          rw [← zpow_add₀ (by norm_num)]
          congr 1
          omega

theorem floorLog2_unique {n d : ℕ} {k : ℤ} (hn : 0 < n) (hd : 0 < d)
    (h₁ : (d : ℚ) * 2 ^ k ≤ n) (h₂ : n < (d : ℚ) * 2 ^ (k + 1)) : floorLog2 n d = k := by
  have ⟨s₁, s₂⟩ := floorLog2_spec hn hd
  have hd' : (0 : ℚ) < d := by exact_mod_cast hd
  have lt : ∀ {i j : ℤ}, (d : ℚ) * 2 ^ i < d * 2 ^ j → i < j := fun h =>
    zpow_lt_zpow_iff_right₀ (by norm_num) |>.mp <| (mul_lt_mul_iff_of_pos_left hd').mp h
  have := lt <| lt_of_le_of_lt s₁ h₂
  have := lt <| lt_of_le_of_lt h₁ s₂
  omega

theorem floorLog2_congr {n d n' d' : ℕ} (hn : 0 < n) (hd : 0 < d) (hn' : 0 < n') (hd' : 0 < d')
    (h : n * d' = n' * d) : floorLog2 n d = floorLog2 n' d' := by
  have ⟨s₁, s₂⟩ := floorLog2_spec hn' hd'
  have hq : (n : ℚ) * d' = n' * d := by exact_mod_cast h
  have hp : (0 : ℚ) < d := by exact_mod_cast hd
  have hp' : (0 : ℚ) < d' := by exact_mod_cast hd'
  refine floorLog2_unique hn hd ?_ ?_
  case refine_1 =>
    refine le_of_mul_le_mul_right ?_ hp'
    rw [hq]
    linarith [mul_le_mul_of_nonneg_right s₁ hp.le]
  case refine_2 =>
    refine lt_of_mul_lt_mul_right ?_ hp'.le
    rw [hq]
    linarith [mul_lt_mul_of_pos_right s₂ hp]

-- The finite non-negative numbers of the binary64 format, each in its one representation.
@[ext]
structure Binary64 where
  man : ℕ
  exp : ℤ
  man_lt : man < 2 ^ 53
  exp_ge : -1074 ≤ exp
  exp_le : exp ≤ 971
  normal : 2 ^ 52 ≤ man ∨ exp = -1074
deriving DecidableEq

namespace Binary64

def value (x : Binary64) : ℚ :=
  x.man * 2 ^ x.exp

def zero : Binary64 where
  man := 0
  exp := -1074
  man_lt := by decide
  exp_ge := by decide
  exp_le := by decide
  normal := .inr rfl

def ofParts (m : ℕ) (e : ℤ) : Option Binary64 :=
  if h : m < 2 ^ 53 ∧ -1074 ≤ e ∧ e ≤ 971 ∧ (2 ^ 52 ≤ m ∨ e = -1074) then
    some ⟨m, e, h.1, h.2.1, h.2.2.1, h.2.2.2⟩
  else
    none

theorem ofParts_self (x : Binary64) : ofParts x.man x.exp = some x := by
  rw [ofParts, dif_pos ⟨x.man_lt, x.exp_ge, x.exp_le, x.normal⟩]

-- The binary64 number nearest to `n / d`, ties to the even one; `none` beyond the largest.
def ofRatio (n d : ℕ) : Option Binary64 :=
  if n = 0 then some zero else
  let e := max (floorLog2 n d - 52) (-1074)
  let m := roundHalfEven (n * 2 ^ (-e).toNat) (d * 2 ^ e.toNat)
  if m = 2 ^ 53 then ofParts (2 ^ 52) (e + 1) else ofParts m e

theorem ofRatio_congr {n d n' d' : ℕ} (hd : 0 < d) (hd' : 0 < d') (h : n * d' = n' * d) :
    ofRatio n d = ofRatio n' d' := by
  by_cases hn : n = 0
  case pos =>
    subst hn
    have : n' = 0 := by simpa [hd.ne'] using h.symm
    simp [ofRatio, this]
  case neg =>
    have hn' : n' ≠ 0 := by
      rintro rfl
      simp [hn, hd'.ne'] at h
    have hl := floorLog2_congr (by omega) hd (by omega) hd' h
    have hr : ∀ e : ℤ, roundHalfEven (n * 2 ^ (-e).toNat) (d * 2 ^ e.toNat) =
        roundHalfEven (n' * 2 ^ (-e).toNat) (d' * 2 ^ e.toNat) := by
      intro e
      refine roundHalfEven_congr (by positivity) (by positivity) ?_
      rw [mul_mul_mul_comm, h, mul_mul_mul_comm]
    simp only [ofRatio, hn, hn', if_false, hl, hr]

-- A fraction that is a binary64 number rounds to it.
theorem ofRatio_exact {x : Binary64} {n d : ℕ} (hd : 0 < d) (h : (n : ℚ) = x.value * d) :
    ofRatio n d = some x := by
  have h2 : ∀ k : ℤ, (0 : ℚ) < 2 ^ k := fun k => by positivity
  have hdq : (0 : ℚ) < d := by exact_mod_cast hd
  by_cases hn : n = 0
  case pos =>
    have hm : x.man = 0 := by
      subst hn
      have : (x.man : ℚ) = 0 := by
        simpa [value, hdq.ne', (h2 x.exp).ne'] using h.symm
      exact_mod_cast this
    have he : x.exp = -1074 := x.normal.resolve_left (by omega)
    simp only [ofRatio, hn, if_true, Option.some.injEq]
    ext
    · simp [zero, hm]
    · simp [zero, he]
  case neg =>
    have ⟨s₁, s₂⟩ := floorLog2_spec (Nat.pos_of_ne_zero hn) hd
    have hv : (n : ℚ) = d * (x.man * 2 ^ x.exp) := by rw [h, value]; ring
    have hlt : (x.man : ℚ) * 2 ^ x.exp < 2 ^ (53 + x.exp) := by
      rw [zpow_add₀ (by norm_num)]
      exact mul_lt_mul_of_pos_right (by exact_mod_cast x.man_lt) (h2 _)
    have hle : floorLog2 n d < 53 + x.exp := by
      refine zpow_lt_zpow_iff_right₀ (a := (2 : ℚ)) (by norm_num) |>.mp ?_
      rw [hv] at s₁
      exact lt_of_le_of_lt (le_of_mul_le_mul_left s₁ hdq) hlt
    -- The exponent the rounding picks is the one of `x`.
    have he : max (floorLog2 n d - 52) (-1074) = x.exp := by
      cases x.normal
      case inr he => rw [he] at hle ⊢; omega
      case inl hm =>
        have hge : 52 + x.exp < floorLog2 n d + 1 := by
          refine zpow_lt_zpow_iff_right₀ (a := (2 : ℚ)) (by norm_num) |>.mp ?_
          rw [hv] at s₂
          refine lt_of_le_of_lt ?_ (lt_of_mul_lt_mul_left s₂ hdq.le)
          rw [zpow_add₀ (by norm_num)]
          exact mul_le_mul_of_nonneg_right (by exact_mod_cast hm) (h2 _).le
        have := x.exp_ge
        omega
    have hm : n * 2 ^ (-x.exp).toNat = x.man * (d * 2 ^ x.exp.toNat) := by
      have hx : (2 : ℚ) ^ x.exp * 2 ^ (-x.exp).toNat = 2 ^ x.exp.toNat := by
        rw [← zpow_natCast, ← zpow_natCast, ← zpow_add₀ (by norm_num)]
        congr 1
        omega
      have : (n : ℚ) * 2 ^ (-x.exp).toNat = x.man * (d * 2 ^ x.exp.toNat) := by
        rw [hv, ← hx]
        ring
      exact_mod_cast this
    have hr : roundHalfEven (n * 2 ^ (-x.exp).toNat) (d * 2 ^ x.exp.toNat) = x.man := by
      have hp : 0 < d * 2 ^ x.exp.toNat := by positivity
      rw [hm, roundHalfEven_of_dvd hp (Nat.dvd_mul_left ..), Nat.mul_div_cancel _ hp]
    have := x.man_lt
    simp only [ofRatio, hn, if_false, he, hr, this.ne, ofParts_self]

-- The binary64 number nearest to the magnitude of a decimal.
def ofDecimal (d : Decimal) : Option Binary64 :=
  ofRatio (d.coeff * 10 ^ d.exp.toNat) (10 ^ (-d.exp).toNat)

theorem ratio_eq (c : ℕ) (e : ℤ) (b : ℕ) (hb : 0 < b) :
    ((c * b ^ e.toNat : ℕ) : ℚ) = c * b ^ e * (b ^ (-e).toNat : ℕ) := by
  have hb' : (b : ℚ) ≠ 0 := by exact_mod_cast hb.ne'
  push_cast
  rw [mul_assoc, ← zpow_natCast, ← zpow_natCast, ← zpow_add₀ hb']
  congr 2
  omega

theorem ofDecimal_congr {a b : Decimal} (h : |a.value| = |b.value|) :
    ofDecimal a = ofDecimal b := by
  refine ofRatio_congr (by positivity) (by positivity) ?_
  rw [Decimal.abs_value, Decimal.abs_value] at h
  have ha := ratio_eq a.coeff a.exp 10 (by decide)
  have hb := ratio_eq b.coeff b.exp 10 (by decide)
  push_cast at ha hb
  rw [h] at ha
  have : ((a.coeff * 10 ^ a.exp.toNat : ℕ) : ℚ) * (10 ^ (-b.exp).toNat : ℕ) =
      (b.coeff * 10 ^ b.exp.toNat : ℕ) * (10 ^ (-a.exp).toNat : ℕ) := by
    push_cast
    rw [ha, hb]
    ring
  exact_mod_cast this

theorem ofDecimal_exact {x : Binary64} {d : Decimal} (h : |d.value| = x.value) :
    ofDecimal d = some x := by
  refine ofRatio_exact (by positivity) ?_
  rw [Decimal.abs_value] at h
  have := ratio_eq d.coeff d.exp 10 (by decide)
  push_cast at this ⊢
  rw [this, h]

end Binary64
