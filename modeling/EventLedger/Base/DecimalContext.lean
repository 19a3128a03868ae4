import EventLedger.Base.Decimal
import EventLedger.Base.Lists
import Mathlib.Data.List.Permutation

namespace Decimal

-- An arithmetic of numbers with at most `prec` digits, the first of which stands at a power of ten
-- from `emin` to `emax`. Below lie the subnormal numbers; what is beyond raises an overflow.
structure Context where
  prec : ℕ
  emin : ℤ
  emax : ℤ
  prec_pos : 0 < prec
  emin_le : emin ≤ emax

namespace Context

variable (c : Context)

-- The exponent of the last digit of the smallest numbers.
def etiny : ℤ :=
  c.emin - c.prec + 1

-- The exponent of the last digit of the largest numbers.
def etop : ℤ :=
  c.emax - c.prec + 1

-- The lowest exponent that the result for a number can have.
def quantum (d : Decimal) : ℤ :=
  max (d.adjusted - c.prec + 1) c.etiny

theorem etiny_le_etop : c.etiny ≤ c.etop := by
  have := c.emin_le
  simp only [etiny, etop]
  omega

theorem etiny_le_quantum (d : Decimal) : c.etiny ≤ c.quantum d :=
  le_max_right ..

theorem adjusted_lt (d : Decimal) : d.adjusted + 1 ≤ c.prec + c.quantum d := by
  have := le_max_left (d.adjusted - c.prec + 1) c.etiny
  simp only [quantum]
  omega

theorem quantum_of_lt {d : Decimal} (h : c.etiny < c.quantum d) :
    d.adjusted = (c.prec - 1 : ℕ) + c.quantum d := by
  have := c.prec_pos
  simp only [quantum] at h ⊢
  omega

end Context

-- The numbers of the arithmetic.
def Fits (c : Context) (v : ℚ) : Prop :=
  |v| < 10 ^ (c.emax + 1) ∧ ∃ m e : ℤ, |m| < 10 ^ c.prec ∧ c.etiny ≤ e ∧ v = m * 10 ^ e

-- A number in the form that the arithmetic can hold, rounded half to even.
def fix (c : Context) (d : Decimal) : Option Decimal :=
  let q := c.quantum d
  if d.coeff = 0 then
    some { d with exp := min (max d.exp c.etiny) c.emax }
  else if c.etop < q then
    none
  else if q ≤ d.exp then
    some d
  else if d.roundTo q = 10 ^ c.prec then
    -- The rounding carries into one digit more than there are.
    if c.etop < q + 1 then none else some { d with coeff := 10 ^ (c.prec - 1), exp := q + 1 }
  else
    some { d with coeff := d.roundTo q, exp := q }

-- The sum, and the unary minus, of the arithmetic.
def add (c : Context) (a b : Decimal) : Option Decimal :=
  fix c (plus a b)

def minus (c : Context) (a : Decimal) : Option Decimal :=
  fix c a.negate

-- The numbers added one by one to zero.
def sum (c : Context) (ds : List Decimal) : Option Decimal :=
  ds.foldlM (add c) zero

-- Whether the numbers can be added in every order.
def Summable (c : Context) (ds : List Decimal) : Prop :=
  ∀ l : List Decimal, l.Perm ds → (sum c l).isSome

instance (c : Context) (ds : List Decimal) : Decidable (Summable c ds) :=
  decidable_of_iff (∀ l ∈ ds.permutations', (sum c l).isSome) (by
    simp only [List.mem_permutations', Summable])

variable {c : Context} {a b d r : Decimal} {v w : ℚ}

theorem Fits.zero : Fits c 0 :=
  ⟨by simpa using by positivity, 0, c.etiny, by simp, le_rfl, by simp⟩

theorem Fits.neg (h : Fits c v) : Fits c (-v) := by
  have ⟨hv, m, e, hm, he, hd⟩ := h
  exact ⟨by rwa [abs_neg], -m, e, by rwa [abs_neg], he, by rw [hd]; push_cast; ring⟩

-- The magnitude that a number is rounded to.
def magnitude (c : Context) (d : Decimal) : ℚ :=
  d.roundTo (c.quantum d) * 10 ^ c.quantum d

theorem magnitude_nonneg (c : Context) (d : Decimal) : 0 ≤ magnitude c d := by
  unfold magnitude
  positivity

theorem ten_pow_mul (n : ℕ) (e : ℤ) : ((10 ^ n : ℕ) : ℚ) * 10 ^ e = 10 ^ (n + e) := by
  rw [zpow_add₀ (by norm_num), zpow_natCast]
  push_cast
  rfl

theorem roundTo_quantum_le (c : Context) (d : Decimal) :
    d.roundTo (c.quantum d) ≤ 10 ^ c.prec := by
  refine roundTo_le ?_
  rw [ten_pow_mul]
  exact d.abs_value_lt.le.trans (zpow_le_zpow_right₀ (by norm_num) (c.adjusted_lt d))

theorem magnitude_le (c : Context) (d : Decimal) : magnitude c d ≤ 10 ^ (c.prec + c.quantum d) := by
  rw [← ten_pow_mul, magnitude]
  gcongr
  exact_mod_cast roundTo_quantum_le c d

-- A number that is not subnormal keeps its first digit or gets a larger one.
theorem le_magnitude (hd : d.coeff ≠ 0) (hq : c.etiny < c.quantum d) :
    10 ^ d.adjusted ≤ magnitude c d := by
  have ha := c.quantum_of_lt hq
  have hr : 10 ^ (c.prec - 1) ≤ d.roundTo (c.quantum d) := by
    refine le_roundTo ?_
    rw [ten_pow_mul, ← ha]
    exact le_abs_value hd
  rw [ha, ← ten_pow_mul, magnitude]
  gcongr

theorem magnitude_of_dvd {m : ℕ} {e : ℤ} (h : |d.value| = m * 10 ^ e) (he : c.quantum d ≤ e) :
    magnitude c d = |d.value| := by
  have ht := ten_pow_toNat (e - c.quantum d)
  have hz : (-(e - c.quantum d)).toNat = 0 := by omega
  have hs : |d.value| = (m * 10 ^ (e - c.quantum d).toNat : ℕ) * 10 ^ c.quantum d := by
    rw [h]
    push_cast
    rw [ht, hz, zpow_sub₀ (by norm_num)]
    field_simp
  rw [magnitude, roundTo_of_eq hs, ← hs]

theorem magnitude_of_coeff (h : d.coeff = 0) : magnitude c d = 0 := by
  have hv : |d.value| = (0 : ℕ) * 10 ^ c.quantum d := by simp [abs_value, h]
  simp [magnitude, roundTo_of_eq hv]

theorem coeff_eq_zero_iff : d.coeff = 0 ↔ |d.value| = 0 := by
  have hp : (10 : ℚ) ^ d.exp ≠ 0 := by positivity
  simp [abs_value, hp]

-- The rounding keeps the order, also of numbers with last digits at different places.
theorem magnitude_mono (h : |a.value| ≤ |b.value|) : magnitude c a ≤ magnitude c b := by
  by_cases ha : a.coeff = 0
  case pos => exact magnitude_of_coeff (c := c) ha ▸ magnitude_nonneg c b
  case neg =>
    have hne : |a.value| ≠ 0 := mt coeff_eq_zero_iff.mpr ha
    have hpos : 0 < |a.value| := lt_of_le_of_ne (abs_nonneg _) hne.symm
    have hb : b.coeff ≠ 0 := fun hz => absurd (coeff_eq_zero_iff.mp hz) (hpos.trans_le h).ne'
    rcases lt_trichotomy (c.quantum a) (c.quantum b) with hq | hq | hq
    case inl =>
      have hlt := (c.etiny_le_quantum a).trans_lt hq
      calc magnitude c a ≤ 10 ^ (c.prec + c.quantum a) := magnitude_le c a
        _ ≤ 10 ^ b.adjusted := by
          refine zpow_le_zpow_right₀ (by norm_num) ?_
          have := c.quantum_of_lt hlt
          have := c.prec_pos
          omega
        _ ≤ magnitude c b := le_magnitude hb hlt
    case inr.inl =>
      have := roundTo_mono h (c.quantum b)
      rw [magnitude, magnitude, hq]
      gcongr
    case inr.inr =>
      have hlt := (c.etiny_le_quantum b).trans_lt hq
      have hab : b.adjusted + 1 ≤ a.adjusted := by
        have := c.quantum_of_lt hlt
        have := c.adjusted_lt b
        have := c.prec_pos
        omega
      have := calc |b.value| < 10 ^ (b.adjusted + 1) := b.abs_value_lt
        _ ≤ 10 ^ a.adjusted := zpow_le_zpow_right₀ (by norm_num) hab
        _ ≤ |a.value| := le_abs_value ha
      exact absurd h this.not_ge

-- The number that a number is rounded to.
def rounded (c : Context) (d : Decimal) : ℚ :=
  if d.neg then -magnitude c d else magnitude c d

theorem value_eq_abs (d : Decimal) : d.value = if d.neg then -|d.value| else |d.value| := by
  cases h : d.neg
  case false => simp [abs_of_nonneg (value_nonneg h)]
  case true =>
    have : d.value = -|d.value| := by
      rw [abs_value, value, signed, h]
      simp
    simpa using this

theorem rounded_mono (h : a.value ≤ b.value) : rounded c a ≤ rounded c b := by
  have hna := magnitude_nonneg c a
  have hnb := magnitude_nonneg c b
  have hpa := abs_nonneg a.value
  have hpb := abs_nonneg b.value
  rw [value_eq_abs a, value_eq_abs b] at h
  unfold rounded
  split_ifs at h ⊢
  case pos => exact neg_le_neg (magnitude_mono (by linarith))
  case neg => linarith
  case pos =>
    have ha : magnitude c a = 0 := magnitude_of_coeff (coeff_eq_zero_iff.mpr (by linarith))
    have hb : magnitude c b = 0 := magnitude_of_coeff (coeff_eq_zero_iff.mpr (by linarith))
    rw [ha, hb, neg_zero]
  case neg => exact magnitude_mono h

theorem abs_rounded (c : Context) (d : Decimal) : |rounded c d| = magnitude c d := by
  unfold rounded
  split
  case isTrue  => rw [abs_neg, abs_of_nonneg (magnitude_nonneg c d)]
  case isFalse => rw [abs_of_nonneg (magnitude_nonneg c d)]

theorem value_of_coeff (h : |r.value| = magnitude c d) (hn : r.neg = d.neg) :
    r.value = rounded c d := by
  rw [value_eq_abs, h, hn]
  rfl

-- The arithmetic holds the rounded number, if that is not beyond the largest.
theorem fix_cases (c : Context) (d : Decimal) :
    (fix c d = none ∧ 10 ^ (c.emax + 1) ≤ magnitude c d) ∨
    (∃ r, fix c d = some r ∧ r.value = rounded c d ∧ magnitude c d < 10 ^ (c.emax + 1)) := by
  have hp := c.prec_pos
  have hle : ∀ {x y : ℤ}, x ≤ y → (10 : ℚ) ^ x ≤ 10 ^ y := zpow_le_zpow_right₀ (by norm_num)
  have hq := c.etiny_le_quantum d
  have htop : c.prec + c.etop = c.emax + 1 := by
    simp only [Context.etop]
    omega
  simp only [fix]
  split_ifs with hz hover hexp hcarry hlast
  case pos =>
    have hm : magnitude c d = 0 := magnitude_of_coeff hz
    refine .inr ⟨_, rfl, value_of_coeff ?_ rfl, by rw [hm]; positivity⟩
    simp [abs_value, hz, hm]
  case pos =>
    have hlt := c.etiny_le_etop.trans_lt hover
    refine .inl ⟨rfl, (hle ?_).trans (le_magnitude hz hlt)⟩
    have := c.quantum_of_lt hlt
    omega
  case pos =>
    have hm := magnitude_of_dvd (c := c) d.abs_value hexp
    refine .inr ⟨d, rfl, value_of_coeff hm.symm rfl, hm ▸ d.abs_value_lt.trans_le (hle ?_)⟩
    have := c.adjusted_lt d
    omega
  case pos =>
    refine .inl ⟨rfl, ?_⟩
    rw [magnitude, hcarry, ten_pow_mul]
    exact hle (by omega)
  case neg =>
    have hm : magnitude c d = 10 ^ (c.prec + c.quantum d) := by
      rw [magnitude, hcarry, ten_pow_mul]
    refine .inr ⟨_, rfl, value_of_coeff ?_ rfl, ?_⟩
    case refine_1 =>
      rw [abs_value, ten_pow_mul, hm]
      congr 1
      dsimp only
      omega
    case refine_2 =>
      rw [hm]
      exact zpow_lt_zpow_right₀ (by norm_num) (by omega)
  case neg =>
    refine .inr ⟨_, rfl, value_of_coeff (by rw [abs_value, magnitude]) rfl, ?_⟩
    have hr := lt_of_le_of_ne (roundTo_quantum_le c d) hcarry
    calc magnitude c d < ((10 ^ c.prec : ℕ) : ℚ) * 10 ^ c.quantum d :=
          mul_lt_mul_of_pos_right (by exact_mod_cast hr) (by positivity)
      _ = 10 ^ (c.prec + c.quantum d) := ten_pow_mul ..
      _ ≤ 10 ^ (c.emax + 1) := hle (by omega)

theorem fix_value (h : fix c d = some r) : r.value = rounded c d := by
  rcases fix_cases c d with ⟨hn, _⟩ | ⟨s, hs, hv, _⟩
  case inl => cases hn.symm.trans h
  case inr => exact Option.some.inj (hs.symm.trans h) ▸ hv

theorem fix_isSome_iff : (fix c d).isSome ↔ magnitude c d < 10 ^ (c.emax + 1) := by
  rcases fix_cases c d with ⟨hn, hm⟩ | ⟨r, hr, _, hm⟩
  case inl => simpa [hn] using hm
  case inr => simpa [hr] using hm

-- A number that is itself beyond the largest is not rounded into range.
theorem abs_value_lt_of_fix (h : (fix c d).isSome) : |d.value| < 10 ^ (c.emax + 1) := by
  have hm := fix_isSome_iff.mp h
  by_contra hlt
  have hle : (10 : ℚ) ^ (c.emax + 1) ≤ |d.value| := not_lt.mp hlt
  have hz : d.coeff ≠ 0 := fun hz => by
    have hp : (0 : ℚ) < 10 ^ (c.emax + 1) := by positivity
    exact absurd (coeff_eq_zero_iff.mp hz) (hp.trans_le hle).ne'
  have ha := (zpow_lt_zpow_iff_right₀ (by norm_num : (1 : ℚ) < 10)).mp (hle.trans_lt d.abs_value_lt)
  have hq : c.etiny < c.quantum d := by
    have := c.emin_le
    simp only [Context.quantum, Context.etiny]
    omega
  have hadj : (10 : ℚ) ^ (c.emax + 1) ≤ 10 ^ d.adjusted :=
    zpow_le_zpow_right₀ (by norm_num) (by omega)
  exact absurd hm (hadj.trans (le_magnitude hz hq)).not_gt

theorem fix_fits (h : fix c d = some r) : Fits c r.value := by
  have hlt := fix_isSome_iff.mp (Option.isSome_of_eq_some h)
  have hm : Fits c (magnitude c d) := by
    refine ⟨by rwa [abs_of_nonneg (magnitude_nonneg c d)], ?_⟩
    by_cases hr : d.roundTo (c.quantum d) = 10 ^ c.prec
    case pos =>
      have hp := c.prec_pos
      refine ⟨10 ^ (c.prec - 1), c.quantum d + 1, ?_, (c.etiny_le_quantum d).trans (by simp), ?_⟩
      case refine_1 =>
        rw [abs_of_pos (by positivity)]
        exact pow_lt_pow_right₀ (by norm_num) (by omega)
      case refine_2 =>
        have ht := ten_pow_mul (c.prec - 1) (c.quantum d + 1)
        push_cast at ht ⊢
        rw [magnitude, hr, ten_pow_mul, ht]
        congr 1
        omega
    case neg =>
      have hr := lt_of_le_of_ne (roundTo_quantum_le c d) hr
      refine ⟨d.roundTo (c.quantum d), c.quantum d, ?_, c.etiny_le_quantum d, by
        rw [magnitude]; push_cast; rfl⟩
      rw [Nat.abs_cast]
      exact_mod_cast hr
  rw [fix_value h, rounded]
  split
  case isTrue  => exact hm.neg
  case isFalse => exact hm

theorem rounded_of_fits (h : Fits c d.value) : rounded c d = d.value := by
  have ⟨_, m, e, hm, he, hv⟩ := h
  have hp : (0 : ℚ) < 10 ^ e := by positivity
  have ha : |d.value| = m.natAbs * 10 ^ e := by
    rw [hv, abs_mul, abs_of_pos hp, ← Int.cast_abs, Int.abs_eq_natAbs, Int.cast_natCast]
  suffices hs : magnitude c d = |d.value| by
    rw [value_eq_abs d, rounded, hs]
  by_cases hd : d.coeff = 0
  case pos => rw [magnitude_of_coeff hd, coeff_eq_zero_iff.mp hd]
  case neg =>
    refine magnitude_of_dvd ha (max_le ?_ he)
    have hlt := calc (10 : ℚ) ^ d.adjusted ≤ |d.value| := le_abs_value hd
      _ = m.natAbs * 10 ^ e := ha
      _ < ((10 ^ c.prec : ℕ) : ℚ) * 10 ^ e := by
        refine mul_lt_mul_of_pos_right ?_ hp
        rw [Int.abs_eq_natAbs] at hm
        exact_mod_cast hm
      _ = 10 ^ (c.prec + e) := ten_pow_mul ..
    have := (zpow_lt_zpow_iff_right₀ (by norm_num : (1 : ℚ) < 10)).mp hlt
    omega

-- Only the numbers of the arithmetic are kept as they are.
theorem fix_eq_iff : (∃ r, fix c d = some r ∧ r.value = d.value) ↔ Fits c d.value := by
  constructor
  case mp =>
    rintro ⟨r, h, hv⟩
    exact hv ▸ fix_fits h
  case mpr =>
    intro h
    have hv := rounded_of_fits h
    have hs : (fix c d).isSome := fix_isSome_iff.mpr (by rw [← abs_rounded, hv]; exact h.1)
    have ⟨r, hr⟩ := Option.isSome_iff_exists.mp hs
    exact ⟨r, hr, (fix_value hr).trans hv⟩

-- What lies between two numbers in range is in range, and stays between them.
theorem fix_between {a' b' : Decimal} (ha : fix c a = some a') (hb : fix c b = some b')
    (had : a.value ≤ d.value) (hdb : d.value ≤ b.value) :
    ∃ r, fix c d = some r ∧ a'.value ≤ r.value ∧ r.value ≤ b'.value := by
  have hs : (fix c d).isSome := by
    have hla := fix_isSome_iff.mp (Option.isSome_of_eq_some ha)
    have hlb := fix_isSome_iff.mp (Option.isSome_of_eq_some hb)
    rw [fix_isSome_iff]
    rw [← abs_rounded] at hla hlb ⊢
    exact abs_lt.mpr ⟨(abs_lt.mp hla).1.trans_le (rounded_mono had),
      (rounded_mono hdb).trans_lt (abs_lt.mp hlb).2⟩
  have ⟨r, hr⟩ := Option.isSome_iff_exists.mp hs
  rw [fix_value ha, fix_value hb]
  exact ⟨r, hr, fix_value hr ▸ rounded_mono had, fix_value hr ▸ rounded_mono hdb⟩

theorem add_eq_iff : (∃ r, add c a b = some r ∧ r.value = a.value + b.value) ↔
    Fits c (a.value + b.value) := by
  rw [← plus_value, ← fix_eq_iff, add]

theorem minus_eq_iff : (∃ r, minus c a = some r ∧ r.value = -a.value) ↔ Fits c (-a.value) := by
  rw [← negate_value, ← fix_eq_iff, minus]

theorem add_fits (h : add c a b = some r) : Fits c r.value :=
  fix_fits h

-- The negation of a positive number is not positive.
theorem minus_nonpos (ha : 0 ≤ a.value) (h : minus c a = some r) : r.value ≤ 0 := by
  have hz : rounded c zero = 0 := (rounded_of_fits (by simpa using Fits.zero)).trans zero_value
  rw [fix_value h, ← hz]
  exact rounded_mono (by simpa using ha)

theorem isSome_bind_iff {α β : Type} {x : Option α} {f : α → Option β} :
    (x >>= f).isSome ↔ ∃ a, x = some a ∧ (f a).isSome :=
  (Option.isSome_bind x f).symm ▸ Option.any_eq_true ..

section Sums

variable {α : Type} {f : α → Decimal} {p : α → Bool} {l : List α}

-- A sum stays between that of the numbers that raise it and that of the numbers that lower it.
theorem foldlM_between (hp : ∀ x ∈ l, p x → 0 ≤ (f x).value) (hn : ∀ x ∈ l, ¬p x → (f x).value ≤ 0)
    {low mid high : Decimal} (hlow : Fits c low.value) (hhigh : Fits c high.value)
    (hlm : low.value ≤ mid.value) (hmh : mid.value ≤ high.value)
    (hfh : (((l.filter p).map f).foldlM (add c) high).isSome)
    (hfl : (((l.filter (!p ·)).map f).foldlM (add c) low).isSome) :
    ((l.map f).foldlM (add c) mid).isSome := by
  induction l generalizing low mid high
  case nil => rfl
  case cons x l hi =>
    have hi := @hi (fun y hy => hp y (List.mem_cons_of_mem _ hy))
      (fun y hy => hn y (List.mem_cons_of_mem _ hy))
    rw [List.map_cons, List.foldlM_cons]
    cases hx : p x
    case true =>
      have hpos := hp x List.mem_cons_self hx
      simp only [List.filter_cons, hx, Bool.not_true, Bool.false_eq_true, if_true, if_false,
        List.map_cons, List.foldlM_cons] at hfh hfl
      have ⟨high', hs, hfh⟩ := isSome_bind_iff.mp hfh
      have ⟨low', hl, he⟩ := fix_eq_iff.mpr hlow
      have ⟨mid', hm, hlm, hmh⟩ := fix_between hl hs (d := plus mid (f x))
        (by rw [plus_value]; linarith) (by rw [plus_value, plus_value]; linarith)
      refine isSome_bind_iff.mpr ⟨mid', hm, ?_⟩
      exact hi hlow (add_fits hs) (he ▸ hlm) hmh hfh hfl
    case false =>
      have hneg := hn x List.mem_cons_self (by simp [hx])
      simp only [List.filter_cons, hx, Bool.not_false, Bool.false_eq_true, if_true, if_false,
        List.map_cons, List.foldlM_cons] at hfh hfl
      have ⟨low', hs, hfl⟩ := isSome_bind_iff.mp hfl
      have ⟨high', hh, he⟩ := fix_eq_iff.mpr hhigh
      have ⟨mid', hm, hlm, hmh⟩ := fix_between hs hh (d := plus mid (f x))
        (by rw [plus_value, plus_value]; linarith) (by rw [plus_value]; linarith)
      refine isSome_bind_iff.mpr ⟨mid', hm, ?_⟩
      exact hi (add_fits hs) hhigh hlm (he ▸ hmh) hfh hfl

theorem summable_map_iff : Summable c (l.map f) ↔
    ∀ l' : List α, l'.Perm l → (sum c (l'.map f)).isSome where
  mp h l' hp := h _ (hp.map f)
  mpr h ds hp := by
    obtain ⟨l', hl, rfl⟩ := List.exists_perm_map_eq hp
    exact h l' hl

theorem sum_isSome_of_append {ds es : List Decimal} (h : (sum c (ds ++ es)).isSome) :
    (sum c ds).isSome := by
  rw [sum, List.foldlM_append] at h
  have ⟨r, hr, _⟩ := isSome_bind_iff.mp h
  exact Option.isSome_of_eq_some hr

theorem Summable.abs_value_lt {ds : List Decimal} (h : Summable c ds) (hd : d ∈ ds) :
    |d.value| < 10 ^ (c.emax + 1) := by
  have hs : (add c zero d).isSome := by
    have := h _ (List.perm_cons_erase hd).symm
    rw [sum, List.foldlM_cons] at this
    have ⟨_, hs, _⟩ := isSome_bind_iff.mp this
    exact Option.isSome_of_eq_some hs
  simpa using abs_value_lt_of_fix hs

-- Numbers can be added in every order just if those that raise the sum can, and those that lower
-- it.
theorem summable_iff (hp : ∀ x ∈ l, p x → 0 ≤ (f x).value) (hn : ∀ x ∈ l, ¬p x → (f x).value ≤ 0) :
    Summable c (l.map f) ↔
    Summable c ((l.filter p).map f) ∧ Summable c ((l.filter (!p ·)).map f) := by
  have hperm := List.filter_append_perm p l
  constructor
  case mp =>
    intro h
    constructor
    case left =>
      intro ds hd
      refine sum_isSome_of_append (h (ds ++ (l.filter (!p ·)).map f) ?_)
      exact (hd.append_right _).trans (List.map_append ▸ hperm.map f)
    case right =>
      intro ds hd
      refine sum_isSome_of_append (h (ds ++ (l.filter p).map f) ?_)
      exact (hd.append_right _).trans (List.perm_append_comm.trans (List.map_append ▸ hperm.map f))
  case mpr =>
    rintro ⟨hpos, hneg⟩
    refine summable_map_iff.mpr fun l' hl => ?_
    have hz : Fits c zero.value := by simpa using Fits.zero
    exact foldlM_between (fun x hx => hp x (hl.mem_iff.mp hx)) (fun x hx => hn x (hl.mem_iff.mp hx))
      hz hz le_rfl le_rfl (hpos _ ((hl.filter _).map f)) (hneg _ ((hl.filter _).map f))

theorem Summable.of_perm {ds es : List Decimal} (h : Summable c ds) (hp : es.Perm ds) :
    Summable c es :=
  fun l hl => h l (hl.trans hp)

end Sums

end Decimal
