import EventLedger.Base.Text
import Mathlib.Data.Rat.Defs
import Mathlib.Algebra.Order.Field.Basic
import Mathlib.Algebra.Order.Field.Power
import Mathlib.Algebra.Order.Ring.Rat
import Mathlib.Tactic.FieldSimp
import Mathlib.Tactic.Linarith
import Mathlib.Tactic.Positivity

-- A signed decimal number `(-1)^neg * coeff * 10^exp`, every representation of a value distinct.
structure Decimal where
  neg : Bool
  coeff : ℕ
  exp : ℤ
deriving DecidableEq

namespace Decimal

def signed (d : Decimal) : ℤ :=
  if d.neg then -d.coeff else d.coeff

def value (d : Decimal) : ℚ :=
  d.signed * 10 ^ d.exp

-- The integer `d` denotes when it is counted in units of `10^e`, for an `e` not above its exponent.
def scaled (d : Decimal) (e : ℤ) : ℤ :=
  d.signed * 10 ^ (d.exp - e).toNat

theorem value_eq_scaled {d : Decimal} {e : ℤ} (h : e ≤ d.exp) :
    d.value = d.scaled e * 10 ^ e := by
  have hk : ((d.exp - e).toNat : ℤ) = d.exp - e := by omega
  have : (10 : ℚ) ^ d.exp = 10 ^ (d.exp - e).toNat * 10 ^ e := by
    rw [← zpow_natCast, ← zpow_add₀ (by norm_num), hk]
    congr 1
    omega
  simp only [value, scaled, this]
  push_cast
  ring

-- Equality of numbers, exact whatever the exponents.
def eq (a b : Decimal) : Bool :=
  let e := min a.exp b.exp
  a.scaled e == b.scaled e

theorem eq_iff {a b : Decimal} : a.eq b ↔ a.value = b.value := by
  have ha := value_eq_scaled (min_le_left a.exp b.exp)
  have hb := value_eq_scaled (min_le_right a.exp b.exp)
  have hp : (10 : ℚ) ^ min a.exp b.exp ≠ 0 := by positivity
  rw [ha, hb]
  simp only [eq, beq_iff_eq]
  constructor
  case mp  => intro h; rw [h]
  case mpr => intro h; exact_mod_cast mul_right_cancel₀ hp h

theorem value_nonneg {d : Decimal} (h : d.neg = false) : 0 ≤ d.value := by
  simp only [value, signed, h, Bool.false_eq_true, if_false]
  positivity

def isPos (d : Decimal) : Bool :=
  !d.neg && d.coeff ≠ 0

theorem isPos_iff {d : Decimal} : d.isPos ↔ 0 < d.value := by
  have hp : (0 : ℚ) < 10 ^ d.exp := by positivity
  rw [value, mul_pos_iff_of_pos_right hp]
  cases h : d.neg
  case true  => simp [isPos, signed, h]
  case false => simp [isPos, signed, h, Nat.pos_iff_ne_zero]

end Decimal

-- The parts of a numeral in the scientific notation of number texts.
structure Numeral where
  neg : Bool
  int : Text
  frac : Text
  exp : Option ℤ
deriving DecidableEq

namespace Numeral

structure WF (n : Numeral) : Prop where
  int_ne_nil : n.int ≠ []
  int_digits : ∀ c ∈ n.int, c.isDigit
  frac_digits : ∀ c ∈ n.frac, c.isDigit
  int_head : ∀ t, n.int = '0' :: t → t = []

def decimal (n : Numeral) : Decimal where
  neg := n.neg
  coeff := Nat.ofDigitChars 10 (n.int ++ n.frac) 0
  exp := n.exp.getD 0 - n.frac.length

def signText (neg : Bool) : Text :=
  if neg then ['-'] else []

def fracText (frac : Text) : Text :=
  if frac = [] then [] else '.' :: frac

-- The exponent mark `e`, the sign and at least `w` digits.
def expText (e : Char) (w : ℕ) : Option ℤ → Text
  | none   => []
  | some k => e :: (if k < 0 then '-' else '+') :: (Nat.toDigits 10 k.natAbs).leftpad w '0'

def text (e : Char) (w : ℕ) (n : Numeral) : Text :=
  signText n.neg ++ n.int ++ fracText n.frac ++ expText e w n.exp

def spanDigits (t : Text) : Text × Text :=
  (t.takeWhile Char.isDigit, t.dropWhile Char.isDigit)

-- A text at which a run of digits ends.
def NoDigit (t : Text) : Prop :=
  ∀ c ∈ t.head?, c.isDigit = false

@[simp]
theorem NoDigit.nil : NoDigit [] := by
  simp [NoDigit]

@[simp]
theorem NoDigit.cons {c : Char} {t : Text} : NoDigit (c :: t) ↔ c.isDigit = false := by
  simp [NoDigit]

theorem spanDigits_append {ds t : Text} (hd : ∀ c ∈ ds, c.isDigit) (ht : NoDigit t) :
    spanDigits (ds ++ t) = (ds, t) := by
  rw [spanDigits, List.takeWhile_append_of_pos hd, List.dropWhile_append_of_pos hd]
  cases t
  case nil => simp
  case cons c t => simp [NoDigit.cons.mp ht]

def scanSign : Text → Bool × Text
  | '-' :: t => (true, t)
  | '+' :: t => (false, t)
  | t        => (false, t)

-- The digits after a point, none when there is no point.
def scanFrac : Text → Text × Text
  | '.' :: t => spanDigits t
  | t        => ([], t)

-- An exponent that ends the text.
def scanExp : Text → Option (Option ℤ)
  | []     => some none
  | c :: t =>
    if c = 'e' ∨ c = 'E' then
      let (neg, t) := scanSign t
      let (ds, t) := spanDigits t
      if ds ≠ [] ∧ t = [] then
        let k := Nat.ofDigitChars 10 ds 0
        some <| some <| if neg then -k else k
      else
        none
    else
      none

-- The numeral a whole text spells, if it spells one.
def scan (t : Text) : Option Numeral :=
  let (neg, t) := scanSign t
  let (int, t) := spanDigits t
  let (frac, t) := scanFrac t
  if int ++ frac = [] then none else
  (scanExp t).map ({ neg, int, frac, exp := · })

theorem toDigits_isDigit {n : ℕ} {c : Char} (h : c ∈ Nat.toDigits 10 n) : c.isDigit :=
  Nat.isDigit_of_mem_toDigits (by decide) (by decide) h

theorem toDigits_head {n : ℕ} {t : Text} (h : Nat.toDigits 10 n = '0' :: t) : t = [] := by
  induction n using Nat.strong_induction_on generalizing t
  case _ n hi =>
    rw [Nat.toDigits_eq_if (by decide)] at h
    split at h
    case isTrue => injection h with _ h; exact h.symm
    case isFalse hn =>
      cases hd : Nat.toDigits 10 (n / 10) <;> rw [hd] at h
      case nil => exact absurd hd Nat.toDigits_ne_nil
      case cons c u =>
        injection h with hc
        have hu := hi (n / 10) (by omega) (hc ▸ hd)
        have := congrArg (Nat.ofDigitChars 10 · 0) hd
        simp [hu, hc, Nat.ofDigitChars_cons] at this
        omega

theorem expText_noDigit {e : Char} {w : ℕ} {k : Option ℤ} (h : e.isDigit = false) :
    NoDigit (expText e w k) := by
  cases k
  case none => exact NoDigit.nil
  case some => simp [expText, h]

theorem fracText_noDigit {frac t : Text} (h : NoDigit t) : NoDigit (fracText frac ++ t) := by
  by_cases hf : frac = []
  case pos => simpa [fracText, hf] using h
  case neg => simp [fracText, hf]

theorem scanSign_digits {ds t : Text} (hn : ds ≠ []) (hd : ∀ c ∈ ds, c.isDigit) :
    scanSign (ds ++ t) = (false, ds ++ t) := by
  cases ds
  case nil => contradiction
  case cons c ds =>
    have hc := hd c (by simp)
    rw [List.cons_append]
    unfold scanSign
    split
    case h_1 h => injection h with h; subst h; simp at hc
    case h_2 h => injection h with h; subst h; simp at hc
    case h_3 => rfl

theorem scanSign_signText {neg : Bool} {ds t : Text} (hn : ds ≠ []) (hd : ∀ c ∈ ds, c.isDigit) :
    scanSign (signText neg ++ ds ++ t) = (neg, ds ++ t) := by
  cases neg
  case true  => simp [signText, scanSign]
  case false => simpa [signText] using scanSign_digits hn hd

theorem scanFrac_fracText {frac t : Text} (hd : ∀ c ∈ frac, c.isDigit) (ht : NoDigit t)
    (hp : t.head? ≠ some '.') : scanFrac (fracText frac ++ t) = (frac, t) := by
  by_cases hf : frac = []
  case pos =>
    subst hf
    simp only [fracText, if_true, List.nil_append]
    unfold scanFrac
    split
    case h_1 => simp at hp
    case h_2 => rfl
  case neg =>
    simp only [fracText, hf, if_false, List.cons_append, scanFrac, spanDigits_append hd ht]

theorem expDigits_isDigit {w k : ℕ} {c : Char} (h : c ∈ (Nat.toDigits 10 k).leftpad w '0') :
    c.isDigit := by
  simp only [List.leftpad, List.mem_append, List.mem_replicate] at h
  cases h
  case inl h => rw [h.2]; decide
  case inr h => exact toDigits_isDigit h

theorem expDigits_ne_nil (w k : ℕ) : (Nat.toDigits 10 k).leftpad w '0' ≠ [] := by
  simp [List.leftpad]

theorem ofDigitChars_expDigits (w k : ℕ) :
    Nat.ofDigitChars 10 ((Nat.toDigits 10 k).leftpad w '0') 0 = k := by
  rw [List.leftpad, Nat.ofDigitChars_append, Nat.ofDigitChars_replicate_zero, mul_zero,
    Nat.ofDigitChars_ten_toDigits]

theorem scanExp_expText {e : Char} {w : ℕ} (k : Option ℤ) (he : e = 'e' ∨ e = 'E') :
    scanExp (expText e w k) = some k := by
  cases k
  case none => rfl
  case some k =>
    have hs : ∀ t : Text, scanSign ((if k < 0 then '-' else '+') :: t) = (decide (k < 0), t) := by
      intro t
      by_cases h : k < 0 <;> simp [h, scanSign]
    have hd : spanDigits ((Nat.toDigits 10 k.natAbs).leftpad w '0') =
        ((Nat.toDigits 10 k.natAbs).leftpad w '0', []) := by
      simpa using spanDigits_append (fun _ h => expDigits_isDigit h) NoDigit.nil
    simp only [expText, scanExp, he, if_true, hs, hd, expDigits_ne_nil, ne_eq, not_false_eq_true,
      and_self, ofDigitChars_expDigits, decide_eq_true_eq, Option.some.injEq]
    split <;> omega

theorem scan_text {n : Numeral} {e : Char} {w : ℕ} (hn : n.WF) (he : e = 'e' ∨ e = 'E') :
    scan (n.text e w) = some n := by
  have hed : e.isDigit = false := by cases he <;> subst e <;> decide
  have hx := expText_noDigit (w := w) (k := n.exp) hed
  have hp : (expText e w n.exp).head? ≠ some '.' := by
    cases n.exp
    case none => simp [expText]
    case some => cases he <;> subst e <;> simp [expText]
  have hne : n.int ++ n.frac ≠ [] := by simp [hn.int_ne_nil]
  simp only [scan, text, List.append_assoc]
  rw [← List.append_assoc (signText _), scanSign_signText hn.int_ne_nil hn.int_digits]
  simp only [spanDigits_append hn.int_digits (fracText_noDigit hx),
    scanFrac_fracText hn.frac_digits hx hp, hne, if_false, scanExp_expText _ he, Option.map_some]

end Numeral
