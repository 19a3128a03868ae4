import Mathlib.Data.List.Basic
import Mathlib.Order.Lattice
import Mathlib.Data.Nat.Basic
import Mathlib.Data.List.Lex
import Mathlib.Tactic.NormNum
import Mathlib.Tactic.Ring

-- A text is the sequence of its Unicode scalar values.
abbrev Text := List Char

namespace Text

instance : Coe String Text where
  coe := String.toList

-- The UTF-8 bytes of a text.
def utf8 (t : Text) : List ℕ :=
  t.flatMap fun c => (String.utf8EncodeChar c).map UInt8.toNat

@[simp]
theorem utf8_nil : utf8 [] = [] :=
  rfl

theorem utf8_cons (c : Char) (t : Text) :
    utf8 (c :: t) = (String.utf8EncodeChar c).map UInt8.toNat ++ utf8 t := by
  simp [utf8]

theorem utf8_append (s t : Text) : utf8 (s ++ t) = utf8 s ++ utf8 t := by
  simp [utf8]

def IsAscii (t : Text) : Prop :=
  ∀ c ∈ t, c.toNat ≤ 127

theorem utf8EncodeChar_of_ascii {c : Char} (h : c.toNat ≤ 127) :
    (String.utf8EncodeChar c).map UInt8.toNat = [c.toNat] := by
  have hc : c.val.toNat ≤ 127 := h
  simp only [String.utf8EncodeChar, hc, if_true, List.map_cons, List.map_nil, List.cons.injEq,
    and_true]
  change c.val.toNat % 2 ^ 8 = c.val.toNat
  exact Nat.mod_eq_of_lt (by omega)

theorem utf8_of_ascii {t : Text} (h : IsAscii t) : utf8 t = t.map Char.toNat := by
  induction t
  case nil => rfl
  case cons c t hi =>
    rw [utf8_cons, utf8EncodeChar_of_ascii (h c (by simp)), hi fun d hd => h d (by simp [hd])]
    rfl

theorem utf8_injective : Function.Injective utf8 := by
  intro s t h
  have hb : s.flatMap String.utf8EncodeChar = t.flatMap String.utf8EncodeChar := by
    have hm : ∀ u : Text, utf8 u = (u.flatMap String.utf8EncodeChar).map UInt8.toNat := by
      intro u
      simp [utf8, List.map_flatMap]
    rw [hm, hm] at h
    exact List.map_injective_iff.mpr (fun _ _ => UInt8.toNat_inj.mp) h
  have he : s.utf8Encode = t.utf8Encode := by simp only [List.utf8Encode, hb]
  have : String.ofList s = String.ofList t :=
    String.toByteArray_inj.mp <| by simp only [String.toByteArray_ofList, he]
  exact String.ofList_injective this

-- The digits of `n`, zero-padded to the width `w`.
def padded : ℕ → ℕ → Text
  | 0,     _ => []
  | w + 1, n => padded w (n / 10) ++ [Nat.digitChar (n % 10)]

@[simp]
theorem padded_length (w n : ℕ) : (padded w n).length = w := by
  induction w generalizing n
  case zero => rfl
  case succ hi => simp [padded, hi]

theorem digitChar_isDigit {d : ℕ} (h : d < 10) : (Nat.digitChar d).isDigit := by
  simp [Nat.isDigit_digitChar, h]

theorem padded_isDigit {w n : ℕ} {c : Char} (h : c ∈ padded w n) : c.isDigit := by
  induction w generalizing n
  case zero => simp [padded] at h
  case succ hi =>
    simp only [padded, List.mem_append, List.mem_singleton] at h
    cases h
    case inl h => exact hi h
    case inr h => exact h ▸ digitChar_isDigit (Nat.mod_lt _ (by decide))

theorem ofDigitChars_padded {w n : ℕ} (h : n < 10 ^ w) :
    Nat.ofDigitChars 10 (padded w n) 0 = n := by
  induction w generalizing n
  case zero => simp [padded] at h ⊢; omega
  case succ w hi =>
    have hd : n / 10 < 10 ^ w := by
      rw [pow_succ] at h
      omega
    rw [padded, Nat.ofDigitChars_append, hi hd,
      Nat.ofDigitChars_cons_digitChar_of_lt_ten (Nat.mod_lt _ (by decide)), Nat.ofDigitChars_nil]
    omega

theorem padded_inj {w m n : ℕ} (hm : m < 10 ^ w) (hn : n < 10 ^ w) :
    padded w m = padded w n ↔ m = n where
  mp h  := by rw [← ofDigitChars_padded hm, h, ofDigitChars_padded hn]
  mpr h := by rw [h]

theorem isDigit_ascii {c : Char} (h : c.isDigit) : c.toNat ≤ 127 := by
  simp only [Char.isDigit, Bool.and_eq_true, decide_eq_true_eq] at h
  have := UInt32.le_iff_toNat_le.mp h.2
  have h9 : ('9' : Char).val.toNat = 57 := rfl
  change c.val.toNat ≤ 127
  omega

theorem padded_ascii (w n : ℕ) : IsAscii (padded w n) :=
  fun _ h => isDigit_ascii (padded_isDigit h)

def hexDigit (c : Char) : Option ℕ :=
  if c.isDigit then some (c.toNat - 48)
  else if 'a' ≤ c ∧ c ≤ 'f' then some (c.toNat - 87)
  else if 'A' ≤ c ∧ c ≤ 'F' then some (c.toNat - 55)
  else none

theorem hexDigit_digitChar {d : ℕ} (h : d < 16) : hexDigit (Nat.digitChar d) = some d := by
  have : ∀ d < 16, hexDigit (Nat.digitChar d) = some d := by decide
  exact this d h

theorem append_lt_append_iff {l₁ l₂ m₁ m₂ : List ℕ} (h : l₁.length = l₂.length) :
    l₁ ++ m₁ < l₂ ++ m₂ ↔ l₁ < l₂ ∨ (l₁ = l₂ ∧ m₁ < m₂) := by
  induction l₁ generalizing l₂ <;> cases l₂ <;> simp at h
  case nil.nil => simp
  case cons.cons hi _ _ =>
    simp only [List.cons_append, List.cons_lt_cons_iff, hi h, List.cons.injEq]
    tauto

theorem utf8_padded_lt_iff {w m n : ℕ} (hm : m < 10 ^ w) (hn : n < 10 ^ w) :
    utf8 (padded w m) < utf8 (padded w n) ↔ m < n := by
  rw [utf8_of_ascii (padded_ascii _ _), utf8_of_ascii (padded_ascii _ _)]
  induction w generalizing m n
  case zero => simp at hm hn; simp [padded, hm, hn]
  case succ w hi =>
    rw [pow_succ] at hm hn
    have hm' : m / 10 < 10 ^ w := by omega
    have hn' : n / 10 < 10 ^ w := by omega
    have hd : ∀ k, (Nat.digitChar (k % 10)).toNat = 48 + k % 10 :=
      fun k => Nat.toNat_digitChar_of_lt_ten (Nat.mod_lt _ (by decide))
    have he : (padded w (m / 10)).map Char.toNat = (padded w (n / 10)).map Char.toNat ↔
        m / 10 = n / 10 := by
      rw [List.map_inj_right fun _ _ => Char.toNat_inj.mp, padded_inj hm' hn']
    simp only [padded, List.map_append, List.map_cons, List.map_nil]
    rw [append_lt_append_iff (by simp), hi hm' hn', he, hd, hd, List.cons_lt_cons_iff]
    simp only [List.not_lt_nil, and_false, or_false]
    omega

theorem not_mem_of_mem_splitOn {c : Char} {s t : Text} (h : s ∈ t.splitOn c) : c ∉ s := by
  induction t generalizing s
  case nil =>
    rw [List.splitOn_nil, List.mem_singleton] at h
    simp [h]
  case cons d t hi =>
    rw [List.splitOn_cons_eq_if_modifyHead] at h
    obtain ⟨u, us, hu⟩ := List.exists_cons_of_ne_nil (List.splitOn_ne_nil c t)
    rw [hu] at h hi
    split at h
    case isTrue =>
      rcases List.mem_cons.mp h with h | h
      case inl => simp [h]
      case inr => exact hi h
    case isFalse hd =>
      rw [List.modifyHead_cons] at h
      rcases List.mem_cons.mp h with h | h
      case inl =>
        rw [h, List.mem_cons, not_or]
        exact ⟨fun he => hd (beq_iff_eq.mpr he.symm), hi List.mem_cons_self⟩
      case inr => exact hi (List.mem_cons_of_mem _ h)

end Text
