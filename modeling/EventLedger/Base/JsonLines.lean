import EventLedger.Base.JsonRoundtrip

-- Texts that a terminal shows on one line.
namespace Text

variable {c : Char} {s t : Text}

def isPrintable (c : Char) : Bool :=
  0x20 ≤ c.toNat && c.toNat ≤ 0x7e

def Printable (t : Text) : Prop :=
  ∀ c ∈ t, isPrintable c

instance : DecidablePred Printable :=
  fun t => t.decidableBAll fun c => isPrintable c

theorem Printable.nil : Printable [] := by
  simp [Printable]

theorem Printable.cons_iff : Printable (c :: t) ↔ isPrintable c ∧ Printable t :=
  List.forall_mem_cons

theorem Printable.append_iff : Printable (s ++ t) ↔ Printable s ∧ Printable t :=
  List.forall_mem_append

theorem isPrintable_of_isDigit (h : c.isDigit) : isPrintable c := by
  simp only [Char.isDigit, Bool.and_eq_true, decide_eq_true_eq] at h
  have h₀ := UInt32.le_iff_toNat_le.mp h.1
  have h₉ := UInt32.le_iff_toNat_le.mp h.2
  have : ('0' : Char).val.toNat = 48 := rfl
  have : ('9' : Char).val.toNat = 57 := rfl
  have : c.toNat = c.val.toNat := rfl
  simp only [isPrintable, Bool.and_eq_true, decide_eq_true_eq]
  omega

theorem Printable.of_digits (h : ∀ c ∈ t, c.isDigit) : Printable t :=
  fun c hc => isPrintable_of_isDigit (h c hc)

theorem Printable.not_mem_newline (h : Printable t) : '\n' ∉ t :=
  fun hm => absurd (h '\n' hm) (by decide)

end Text

namespace Numeral

open Text (Printable)

variable {n : Numeral} {e : Char} {w : ℕ}

theorem printable_text (hn : n.WF) (he : Text.isPrintable e) : Printable (n.text e w) := by
  rw [text, Printable.append_iff, Printable.append_iff, Printable.append_iff]
  refine ⟨⟨⟨?_, .of_digits hn.int_digits⟩, ?_⟩, ?_⟩
  case refine_1 =>
    cases n.neg
    case true  => exact Printable.cons_iff.mpr ⟨by decide, .nil⟩
    case false => exact .nil
  case refine_2 =>
    unfold fracText
    split
    case isTrue  => exact .nil
    case isFalse => exact Printable.cons_iff.mpr ⟨by decide, .of_digits hn.frac_digits⟩
  case refine_3 =>
    cases n.exp
    case none   => exact .nil
    case some k =>
      refine Printable.cons_iff.mpr ⟨he, Printable.cons_iff.mpr ⟨?_, .of_digits ?_⟩⟩
      case refine_1 => split <;> decide
      case refine_2 => exact fun _ => expDigits_isDigit

end Numeral

namespace Json

open Text (Printable)

theorem printable_hex4 (n : ℕ) : Printable (hex4 n) := by
  have h : ∀ d < 16, Text.isPrintable (Nat.digitChar d) := by decide
  simp only [hex4, List.map_cons, List.map_nil, Printable, List.forall_mem_cons, List.not_mem_nil,
    false_implies, implies_true, and_true]
  exact ⟨h _ (Nat.mod_lt _ (by decide)), h _ (Nat.mod_lt _ (by decide)),
    h _ (Nat.mod_lt _ (by decide)), h _ (Nat.mod_lt _ (by decide))⟩

-- Whatever the character is.
theorem printable_escape (c : Char) : Printable (escape c) := by
  have hu : Text.isPrintable '\\' ∧ Text.isPrintable 'u' := by decide
  unfold escape
  split_ifs with _ _ _ _ _ _ _ h
  any_goals decide
  case pos => exact Printable.cons_iff.mpr ⟨by simpa [Text.isPrintable] using h, .nil⟩
  case pos =>
    exact Printable.cons_iff.mpr ⟨hu.1, Printable.cons_iff.mpr ⟨hu.2, printable_hex4 _⟩⟩
  case neg =>
    refine Printable.append_iff.mpr ⟨?_, ?_⟩
    case refine_1 =>
      exact Printable.cons_iff.mpr ⟨hu.1, Printable.cons_iff.mpr ⟨hu.2, printable_hex4 _⟩⟩
    case refine_2 =>
      exact Printable.cons_iff.mpr ⟨hu.1, Printable.cons_iff.mpr ⟨hu.2, printable_hex4 _⟩⟩

theorem printable_quote (s : Text) : Printable (quote s) := by
  refine Printable.append_iff.mpr ⟨Printable.cons_iff.mpr ⟨by decide, ?_⟩, by decide⟩
  intro c hc
  have ⟨d, _, hd⟩ := List.mem_flatMap.mp hc
  exact printable_escape d c hd

theorem printable_emitElems {xs : List Json} (h : ∀ x ∈ xs, Printable x.emit) :
    Printable (emitElems xs) := by
  induction xs
  case nil => exact Printable.cons_iff.mpr ⟨by decide, .nil⟩
  case cons x xs hi =>
    rw [List.forall_mem_cons] at h
    refine Printable.append_iff.mpr ⟨Printable.cons_iff.mpr ⟨by decide, h.1⟩, hi h.2⟩

theorem printable_emitMembers {fs : List (Text × Json)} (h : ∀ f ∈ fs, Printable f.2.emit) :
    Printable (emitMembers fs) := by
  induction fs
  case nil => exact Printable.cons_iff.mpr ⟨by decide, .nil⟩
  case cons f fs hi =>
    rw [List.forall_mem_cons] at h
    have hv := Printable.cons_iff.mpr ⟨(by decide : Text.isPrintable ':'), h.1⟩
    have hq := Printable.append_iff.mpr ⟨printable_quote f.1, hv⟩
    exact Printable.append_iff.mpr ⟨Printable.cons_iff.mpr ⟨by decide, hq⟩, hi h.2⟩

-- The text of a value is on one line, whatever texts are in the value.
theorem printable_emit (v : Json) : Printable v.emit := by
  induction v using container_ind
  case atom v m hm =>
    cases v
    case null    => decide
    case bool b  => cases b <;> decide
    case int i   => exact Numeral.printable_text (intNumeral_wf i) (by decide)
    case str s   => exact printable_quote s
    case float x =>
      cases x
      case nan               => decide
      case inf neg           => cases neg <;> decide
      case finite neg mag    => exact Numeral.printable_text (mag.numeral_wf neg) (by decide)
    case arr | obj => simp [atom] at hm
  case arr xs hi =>
    cases xs
    case nil => decide
    case cons x xs =>
      rw [List.forall_mem_cons] at hi
      exact Printable.append_iff.mpr
        ⟨Printable.cons_iff.mpr ⟨by decide, hi.1⟩, printable_emitElems hi.2⟩
  case obj fs hi =>
    cases fs
    case nil => decide
    case cons f fs =>
      rw [List.forall_mem_cons] at hi
      have hv := Printable.cons_iff.mpr ⟨(by decide : Text.isPrintable ':'), hi.1⟩
      have hq := Printable.append_iff.mpr ⟨printable_quote f.1, hv⟩
      exact Printable.append_iff.mpr
        ⟨Printable.cons_iff.mpr ⟨by decide, hq⟩, printable_emitMembers hi.2⟩

-- A value on each line.
def emitLines (vs : List Json) : Text :=
  vs.flatMap fun v => v.emit ++ ['\n']

-- The lines of a text that ends with one, each read as a value.
def loadsLines (t : Text) : Option (List Json) :=
  (t.splitOn '\n').dropLast.mapM loads

theorem splitOn_emitLines (vs : List Json) :
    (emitLines vs).splitOn '\n' = vs.map emit ++ [[]] := by
  induction vs
  case nil => rfl
  case cons v vs hi =>
    have hn := (printable_emit v).not_mem_newline
    rw [emitLines, List.flatMap_cons, List.append_assoc, List.singleton_append,
      List.splitOn_append_cons_self_of_not_mem hn]
    exact congrArg (_ :: ·) hi

theorem printable_emitLines {vs : List Json} {c : Char} (h : c ∈ emitLines vs) :
    Text.isPrintable c ∨ c = '\n' := by
  have ⟨v, _, hc⟩ := List.mem_flatMap.mp h
  rw [List.mem_append, List.mem_singleton] at hc
  exact hc.imp_left (printable_emit v c)

-- What has been written line by line is read back, value by value.
theorem loadsLines_emitLines {vs : List Json} (h : ∀ v ∈ vs, v.WF) :
    loadsLines (emitLines vs) = some vs := by
  rw [loadsLines, splitOn_emitLines, List.dropLast_concat]
  induction vs
  case nil => rfl
  case cons v vs hi =>
    rw [List.forall_mem_cons] at h
    rw [List.map_cons, List.mapM_cons, loads_emit h.1, hi h.2]
    rfl

end Json
