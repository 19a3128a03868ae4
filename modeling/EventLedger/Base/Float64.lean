import EventLedger.Base.Binary64

namespace Binary64

def num (x : Binary64) : ℕ :=
  x.man * 2 ^ x.exp.toNat

def den (x : Binary64) : ℕ :=
  2 ^ (-x.exp).toNat

-- The `p` such that `10^(p-1) ≤ x < 10^p`.
def point (x : Binary64) : ℤ :=
  if x.den ≤ x.num then
    (Nat.toDigits 10 (x.num / x.den)).length
  else
    1 - (Nat.toDigits 10 ((x.den - 1) / x.num)).length

-- The nearer one of the two decimals of `n` digits next to `x`, of those that round to `x`.
def decimalOf (x : Binary64) (n : ℕ) : Option Decimal :=
  let unit := x.point - n
  let a := x.num * 10 ^ (-unit).toNat
  let b := x.den * 10 ^ unit.toNat
  let near := roundHalfEven a b
  let far := if near = a / b then near + 1 else a / b
  [near, far].map (⟨false, ·, unit⟩) |>.find? fun d => ofDecimal d = some x

def exact (x : Binary64) : Decimal :=
  if 0 ≤ x.exp then
    ⟨false, x.man * 2 ^ x.exp.toNat, 0⟩
  else
    ⟨false, x.man * 5 ^ (-x.exp).toNat, x.exp⟩

-- The shortest decimal that rounds to `x`.
def shortest (x : Binary64) : Decimal :=
  let d := ((List.range 17).findSome? fun n => x.decimalOf (n + 1)).getD x.exact
  if d.coeff = 10 then ⟨false, 1, d.exp + 1⟩ else d

theorem exact_value (x : Binary64) : x.exact.value = x.value := by
  simp only [exact, value]
  split
  case isTrue h =>
    have h2 : (2 : ℚ) ^ x.exp = 2 ^ x.exp.toNat := by
      rw [← zpow_natCast]
      congr 1
      omega
    rw [Decimal.value_mk, h2]
    push_cast
    simp
  case isFalse h =>
    have h5 : (5 : ℚ) ^ (-x.exp).toNat = 5 ^ (-x.exp) := by
      rw [← zpow_natCast]
      congr 1
      omega
    have h10 : (10 : ℚ) ^ x.exp = 2 ^ x.exp * 5 ^ x.exp := by
      rw [← mul_zpow]
      norm_num
    rw [Decimal.value_mk]
    push_cast
    rw [h5, h10, zpow_neg]
    field_simp

theorem ofDecimal_decimalOf {x : Binary64} {n : ℕ} {d : Decimal} (h : x.decimalOf n = some d) :
    ofDecimal d = some x := by
  have := List.find?_some h
  simpa using this

theorem value_nonneg (x : Binary64) : 0 ≤ x.value := by
  rw [value]
  positivity

theorem ofDecimal_shortest (x : Binary64) : ofDecimal x.shortest = some x := by
  have h : ofDecimal (((List.range 17).findSome? fun n => x.decimalOf (n + 1)).getD x.exact) =
      some x := by
    cases hf : (List.range 17).findSome? fun n => x.decimalOf (n + 1)
    case none =>
      refine ofDecimal_exact ?_
      rw [Option.getD_none, exact_value, abs_of_nonneg x.value_nonneg]
    case some d =>
      have ⟨_, _, hd⟩ := List.exists_of_findSome?_eq_some hf
      exact ofDecimal_decimalOf hd
  simp only [shortest]
  split
  case isFalse => exact h
  case isTrue hc =>
    refine Eq.trans (ofDecimal_congr ?_) h
    rw [Decimal.abs_value, Decimal.abs_value, hc, zpow_add₀ (by norm_num)]
    push_cast
    ring

theorem shortest_neg (x : Binary64) : x.shortest.neg = false := by
  have h : (((List.range 17).findSome? fun n => x.decimalOf (n + 1)).getD x.exact).neg = false := by
    cases hf : (List.range 17).findSome? fun n => x.decimalOf (n + 1)
    case none =>
      simp only [Option.getD_none, exact]
      split <;> rfl
    case some d =>
      obtain ⟨_, _, hd⟩ := List.exists_of_findSome?_eq_some hf
      obtain ⟨_, _, he⟩ := List.mem_map.mp (List.mem_of_find?_eq_some hd)
      exact he ▸ rfl
  simp only [shortest]
  split
  case isFalse => exact h
  case isTrue  => rfl

-- The parts of the text of a float: scientific outside of `10^-4 ≤ x < 10^16`, and never without
-- both a digit before and a digit after the point in the positional notation.
def numeral (neg : Bool) (x : Binary64) : Numeral :=
  let d := x.shortest
  let ds := Nat.toDigits 10 d.coeff
  let point := d.exp + ds.length
  if -4 < point ∧ point ≤ 16 then
    if point ≤ 0 then
      { neg, int := ['0'], frac := List.replicate (-point).toNat '0' ++ ds, exp := none }
    else if point < ds.length then
      { neg, int := ds.take point.toNat, frac := ds.drop point.toNat, exp := none }
    else
      { neg, int := ds ++ List.replicate d.exp.toNat '0', frac := ['0'], exp := none }
  else
    { neg, int := ds.take 1, frac := ds.drop 1, exp := some (point - 1) }

theorem shortest_zero : zero.shortest = ⟨false, 0, -1⟩ := by
  decide +kernel

theorem eq_zero_of_shortest {x : Binary64} (h : x.shortest.coeff = 0) : x = zero := by
  have hx := ofDecimal_shortest x
  simp only [ofDecimal, h, zero_mul, ofRatio, if_true, Option.some.injEq] at hx
  exact hx.symm

theorem numeral_wf (neg : Bool) (x : Binary64) : (x.numeral neg).WF := by
  have hz : ∀ {k : ℕ} {c : Char}, c ∈ List.replicate k '0' → c.isDigit := by
    intro k c h
    rw [List.eq_of_mem_replicate h]
    decide
  simp only [numeral]
  split_ifs
  case pos =>
    refine ⟨by simp, by simp, fun c h => ?_, by simp⟩
    exact (List.mem_append.mp h).elim hz Numeral.toDigits_isDigit
  case pos => exact Decimal.take_digits_wf (by omega) ..
  case neg hp _ =>
    refine ⟨by simp, fun c h => ?_, by simp, fun t h => ?_⟩
    · exact (List.mem_append.mp h).elim Numeral.toDigits_isDigit hz
    · -- A leading zero is the number zero, whose text is in the first form.
      exfalso
      cases hd : Nat.toDigits 10 x.shortest.coeff
      case nil => exact Nat.toDigits_ne_nil hd
      case cons c ds =>
        have h0 : c = '0' := by
          have h : Nat.toDigits 10 x.shortest.coeff ++ _ = '0' :: t := h
          rw [hd] at h
          injection h
        subst h0
        have hn := Nat.ofDigitChars_ten_toDigits (n := x.shortest.coeff)
        rw [hd, Numeral.toDigits_head hd] at hn
        have hx := eq_zero_of_shortest hn.symm
        subst hx
        rw [shortest_zero] at hp
        exact hp (by decide)
  case neg => exact Decimal.take_digits_wf (by decide) ..

theorem numeral_value (neg : Bool) (x : Binary64) :
    |(x.numeral neg).decimal.value| = |x.shortest.value| := by
  have hd : Nat.ofDigitChars 10 (Nat.toDigits 10 x.shortest.coeff) 0 = x.shortest.coeff :=
    Nat.ofDigitChars_ten_toDigits
  have hl : 0 < (Nat.toDigits 10 x.shortest.coeff).length := Nat.length_toDigits_pos
  simp only [Decimal.abs_value, numeral]
  split_ifs
  case pos =>
    have hz : Nat.ofDigitChars 10 ['0'] 0 = 0 := rfl
    simp only [Numeral.decimal, Nat.ofDigitChars_append, Nat.ofDigitChars_replicate_zero, mul_zero,
      hz, hd, Option.getD_none, List.length_append, List.length_replicate]
    congr 2
    omega
  case pos =>
    simp only [Numeral.decimal, List.take_append_drop, hd, Option.getD_none, List.length_drop]
    congr 2
    omega
  case neg =>
    simp only [Numeral.decimal, Nat.ofDigitChars_append, Nat.ofDigitChars_replicate_zero, hd,
      Option.getD_none, List.length_singleton, Nat.ofDigitChars_cons, Nat.ofDigitChars_nil]
    obtain ⟨k, hk⟩ := Int.eq_ofNat_of_zero_le (a := x.shortest.exp) (by omega)
    rw [hk, Int.toNat_natCast]
    push_cast
    rw [zpow_natCast]
    simp
    ring
  case neg =>
    simp only [Numeral.decimal, List.take_append_drop, hd, Option.getD_some, List.length_drop]
    congr 2
    omega

theorem numeral_neg (neg : Bool) (x : Binary64) : (x.numeral neg).decimal.neg = neg := by
  simp only [Numeral.decimal, numeral]
  split_ifs <;> rfl

-- The decimal that is read from the text of a number.
def readBack (x : Binary64) : Decimal :=
  (x.numeral false).decimal

theorem readBack_value (x : Binary64) : x.readBack.value = x.shortest.value := by
  have h := numeral_value false x
  rwa [abs_of_nonneg (Decimal.value_nonneg (numeral_neg false x)),
    abs_of_nonneg (Decimal.value_nonneg x.shortest_neg)] at h

theorem ofDecimal_readBack (x : Binary64) : ofDecimal x.readBack = some x :=
  ofDecimal_congr (numeral_value false x) |>.trans x.ofDecimal_shortest

end Binary64

-- The binary64 numbers with their signs, infinities and not-a-number.
inductive Float64
  | nan
  | inf (neg : Bool)
  | finite (neg : Bool) (mag : Binary64)
deriving DecidableEq

namespace Float64

def isFinite : Float64 → Bool
  | finite .. => true
  | _         => false

-- Rounds a decimal, to an infinity when it is out of range.
def ofDecimal (d : Decimal) : Float64 :=
  match Binary64.ofDecimal d with
  | some x => finite d.neg x
  | none   => inf d.neg

theorem ofDecimal_numeral (neg : Bool) (x : Binary64) :
    ofDecimal (x.numeral neg).decimal = finite neg x := by
  have hx : Binary64.ofDecimal (x.numeral neg).decimal = some x :=
    Binary64.ofDecimal_congr (Binary64.numeral_value neg x) |>.trans x.ofDecimal_shortest
  simp [ofDecimal, hx, Binary64.numeral_neg]

end Float64
