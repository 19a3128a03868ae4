import EventLedger.Base.Url

-- The query of a URL, as names with values.
namespace Url

open Text

variable {t : Text} {c : Char} {n : ℕ}

def unquotePlus (t : Text) : Text :=
  unquote (t.map fun c => if c = '+' then ' ' else c)

-- One piece of a query, up to its first `=` and after it.
def parseField (piece : Text) : Text × Text :=
  (unquotePlus (piece.takeWhile (· ≠ '=')), unquotePlus ((piece.dropWhile (· ≠ '=')).drop 1))

-- `parse_qsl` with blank values kept.
def parseQsl (query : Text) : List (Text × Text) :=
  ((query.splitOn '&').filter (· ≠ [])).map parseField

-- A parameter that is given more than once has its last value.
def queryParam (query : Text) (name : String) : Option Text :=
  ((parseQsl query).reverse.lookup name.toList)

-- Every byte of a text as an escape.
def escapeAll (t : Text) : Text :=
  (utf8 t).flatMap escapeByte

theorem unquote_escapeAll (t : Text) : unquote (escapeAll t) = t := by
  have h := unescape_escapeBytes (fun n hn => utf8_lt (n := n) (t := t) hn) []
  rw [List.append_nil] at h
  rw [unquote, escapeAll, h]
  simp [unescape, decodeUtf8_utf8]

theorem mem_escapeByte (hn : n < 256) (h : c ∈ escapeByte n) :
    c ≠ '/' ∧ c ≠ '&' ∧ c ≠ '=' ∧ c ≠ '+' := by
  have hd : ∀ d < 16, (Nat.digitChar d).toUpper ≠ '/' ∧ (Nat.digitChar d).toUpper ≠ '&' ∧
      (Nat.digitChar d).toUpper ≠ '=' ∧ (Nat.digitChar d).toUpper ≠ '+' := by decide
  simp only [escapeByte, List.mem_cons, List.not_mem_nil, or_false] at h
  rcases h with rfl | rfl | rfl
  case inl     => decide
  case inr.inl => exact hd _ (by omega)
  case inr.inr => exact hd _ (by omega)

theorem mem_escapeAll (h : c ∈ escapeAll t) : c ≠ '/' ∧ c ≠ '&' ∧ c ≠ '=' ∧ c ≠ '+' := by
  have ⟨n, hn, hc⟩ := List.mem_flatMap.mp h
  exact mem_escapeByte (utf8_lt hn) hc

theorem unquotePlus_escapeAll (t : Text) : unquotePlus (escapeAll t) = t := by
  have hm : (escapeAll t).map (fun c => if c = '+' then ' ' else c) = escapeAll t :=
    (List.map_congr_left fun c hc => if_neg (mem_escapeAll hc).2.2.2).trans (List.map_id _)
  rw [unquotePlus, hm, unquote_escapeAll]

theorem parseField_escapeAll (s t : Text) :
    parseField (escapeAll s ++ '=' :: escapeAll t) = (s, t) := by
  have hs : ∀ c ∈ escapeAll s, decide (c ≠ '=') := fun c hc =>
    decide_eq_true (mem_escapeAll hc).2.2.1
  rw [parseField, List.takeWhile_append_of_pos hs, List.dropWhile_append_of_pos hs]
  simp [unquotePlus_escapeAll]

-- A parameter can be sent with any value.
theorem queryParam_escapeAll (name : String) (t : Text) :
    queryParam (escapeAll name.toList ++ '=' :: escapeAll t) name = some t := by
  have hn : ∀ u, '&' ∉ escapeAll u := fun u hm => (mem_escapeAll hm).2.1 rfl
  have hs : (escapeAll name.toList ++ '=' :: escapeAll t).splitOn '&' =
      [escapeAll name.toList ++ '=' :: escapeAll t] :=
    List.splitOn_eq_singleton (by simp [hn])
  simp [queryParam, parseQsl, hs, parseField_escapeAll]

end Url
