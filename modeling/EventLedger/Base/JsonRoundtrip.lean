import EventLedger.Base.JsonText

namespace Json

theorem scanHex4_hex4 {n : ℕ} (h : n < 65536) (t : Text) :
    scanHex4 (hex4 n ++ t) = some (n, t) := by
  have hd : ∀ k, Text.hexDigit (Nat.digitChar (k % 16)) = some (k % 16) :=
    fun k => Text.hexDigit_digitChar (Nat.mod_lt _ (by decide))
  simp only [hex4, List.map_cons, List.map_nil, List.cons_append, List.nil_append, scanHex4, hd,
    Option.bind_eq_bind, Option.bind_some, Option.some.injEq, Prod.mk.injEq, and_true]
  omega

theorem scanUnicode_bmp {c : Char} (h : c.toNat < 0x10000) (t : Text) :
    scanUnicode (hex4 c.toNat ++ t) = some (c, t) := by
  have hv : c.toNat < 0xd800 ∨ 0xdfff < c.toNat ∧ c.toNat < 0x110000 := c.valid
  have h₁ : ¬(0xd800 ≤ c.toNat ∧ c.toNat ≤ 0xdbff) := by omega
  have h₂ : ¬(0xdc00 ≤ c.toNat ∧ c.toNat ≤ 0xdfff) := by omega
  simp [scanUnicode, scanHex4_hex4 h, h₁, h₂]

theorem scanUnicode_surrogates {t t' t'' : Text} {u v : ℕ}
    (ht : scanHex4 t = some (u, '\\' :: 'u' :: t')) (hu : 0xd800 ≤ u ∧ u ≤ 0xdbff)
    (ht' : scanHex4 t' = some (v, t'')) (hv : 0xdc00 ≤ v ∧ v ≤ 0xdfff) :
    scanUnicode t = some (Char.ofNat (0x10000 + (u - 0xd800) * 1024 + (v - 0xdc00)), t'') := by
  simp [scanUnicode, ht, ht', hu, hv]

theorem scanUnicode_pair {c : Char} (h : ¬c.toNat < 0x10000) (t : Text) :
    scanUnicode (hex4 (0xd800 + (c.toNat - 0x10000) / 1024) ++
      '\\' :: 'u' :: (hex4 (0xdc00 + (c.toNat - 0x10000) % 1024) ++ t)) = some (c, t) := by
  have hv : c.toNat < 0xd800 ∨ 0xdfff < c.toNat ∧ c.toNat < 0x110000 := c.valid
  generalize hu : 0xd800 + (c.toNat - 0x10000) / 1024 = u
  generalize hl : 0xdc00 + (c.toNat - 0x10000) % 1024 = l
  rw [scanUnicode_surrogates (scanHex4_hex4 (by omega) _) (by omega) (scanHex4_hex4 (by omega) _)
    (by omega)]
  have hc : 0x10000 + (u - 0xd800) * 1024 + (l - 0xdc00) = c.toNat := by omega
  rw [hc, Char.ofNat_toNat]

theorem scanChar_escape (c : Char) (t : Text) : scanChar (escape c ++ t) = some (c, t) := by
  unfold escape
  split_ifs <;> try subst c
  case pos => rfl
  case pos => rfl
  case pos => rfl
  case pos => rfl
  case pos => rfl
  case pos => rfl
  case pos => rfl
  case pos hb _ _ _ _ _ h =>
    have : ¬c.toNat < 0x20 := by omega
    simp [scanChar, hb, this]
  case pos h => simpa [scanChar, scanEscape] using scanUnicode_bmp h t
  case neg h => simpa [scanChar, scanEscape] using scanUnicode_pair h t

-- A character stands for itself, or it is written with a backslash.
theorem escape_cases (c : Char) : (escape c = [c] ∧ c ≠ '"') ∨ ∃ t, escape c = '\\' :: t := by
  by_cases hq : c = '"'
  case pos => exact .inr ⟨['"'], if_pos hq⟩
  case neg =>
    unfold escape
    rw [if_neg hq]
    repeat' split
    all_goals first | exact .inr ⟨_, rfl⟩ | exact .inl ⟨rfl, hq⟩

theorem escape_head (c : Char) (t : Text) : (escape c ++ t).head? ≠ some '"' := by
  rcases escape_cases c with ⟨he, hc⟩ | ⟨u, he⟩
  case inl => simpa [he] using hc
  case inr => simp [he]

theorem escape_length (c : Char) : 1 ≤ (escape c).length := by
  rcases escape_cases c with ⟨he, _⟩ | ⟨_, he⟩ <;> simp [he]

theorem scanString_quote {s t : Text} {n : ℕ} (h : s.length < n) :
    scanString n (s.flatMap escape ++ '"' :: t) = some (s, t) := by
  induction s generalizing n <;> cases n
  case nil.zero | cons.zero => simp at h
  case nil.succ => simp [scanString]
  case cons.succ c s hi n =>
    have hs : s.length < n := by simpa using h
    simp only [List.flatMap_cons, List.append_assoc, scanString, escape_head, if_false,
      scanChar_escape, Option.bind_eq_bind, Option.bind_some, hi hs]

theorem scanString_of_quote (s t : Text) :
    scanString ((s.flatMap escape ++ '"' :: t).length + 1) (s.flatMap escape ++ '"' :: t) =
      some (s, t) := by
  refine scanString_quote ?_
  have : s.length ≤ (s.flatMap escape).length := by
    induction s
    case nil => simp
    case cons c s hi =>
      have := escape_length c
      simp only [List.flatMap_cons, List.length_append, List.length_cons]
      omega
  simp only [List.length_append, List.length_cons]
  omega

-- What may follow a value.
def Stop (t : Text) : Prop :=
  ∀ c ∈ t.head?, c = ',' ∨ c = ']' ∨ c = '}'

theorem Stop.nil : Stop [] := by
  simp [Stop]

theorem Stop.cons {c : Char} {t : Text} (h : c = ',' ∨ c = ']' ∨ c = '}') : Stop (c :: t) := by
  simpa [Stop] using h

theorem Stop.noDigit {t : Text} (h : Stop t) : Numeral.NoDigit t := by
  intro c hc
  rcases h c hc with rfl | rfl | rfl <;> decide

theorem Stop.head_ne {t : Text} (h : Stop t) {c : Char} (hc : c ≠ ',' ∧ c ≠ ']' ∧ c ≠ '}') :
    t.head? ≠ some c := by
  intro ht
  have := h c ht
  tauto

theorem scanExponent_stop {t : Text} (h : Stop t) : scanExponent t = (none, t) := by
  cases t
  case nil => rfl
  case cons c t =>
    have : ¬(c = 'e' ∨ c = 'E') := by
      rcases h c rfl with rfl | rfl | rfl <;> decide
    simp [scanExponent, this]

theorem scanExponent_expText {w : ℕ} {k : Option ℤ} {t : Text} (h : Stop t) :
    scanExponent (Numeral.expText 'e' w k ++ t) = (k, t) := by
  cases k
  case none => exact scanExponent_stop h
  case some k =>
    have hs : ∀ t : Text, Numeral.scanSign ((if k < 0 then '-' else '+') :: t) =
        (decide (k < 0), t) := by
      intro t
      by_cases h : k < 0 <;> simp [h, Numeral.scanSign]
    have hd := Numeral.spanDigits_append
      (fun _ hc => Numeral.expDigits_isDigit (w := w) (k := k.natAbs) hc) h.noDigit
    simp only [Numeral.expText, List.cons_append, scanExponent, true_or, if_true, hs, hd,
      Numeral.expDigits_ne_nil, if_false, Numeral.ofDigitChars_expDigits, decide_eq_true_eq,
      Prod.mk.injEq, Option.some.injEq, and_true]
    split <;> omega

theorem scanFraction_fracText {frac t : Text} (hd : ∀ c ∈ frac, c.isDigit)
    (ht : Numeral.NoDigit t) (hp : t.head? ≠ some '.') :
    scanFraction (Numeral.fracText frac ++ t) = (frac, t) := by
  simp only [scanFraction, Numeral.scanFrac_fracText hd ht hp]
  split
  case isTrue h  => simp [h, Numeral.fracText]
  case isFalse h => rfl

theorem head_of_digits {ds t : Text} (hn : ds ≠ []) (hd : ∀ c ∈ ds, c.isDigit) :
    (ds ++ t).head? ≠ some '-' := by
  cases ds
  case nil => contradiction
  case cons c ds =>
    have := hd c (by simp)
    rintro h
    simp only [List.cons_append, List.head?_cons, Option.some.injEq] at h
    subst h
    contradiction

theorem scanNumber_text {n : Numeral} {w : ℕ} {t : Text} (hn : n.WF) (ht : Stop t) :
    scanNumber (n.text 'e' w ++ t) =
      some (if n.frac = [] ∧ n.exp = none then
        int (if n.neg then -Nat.ofDigitChars 10 n.int 0 else Nat.ofDigitChars 10 n.int 0)
      else
        float (Float64.ofDecimal n.decimal), t) := by
  have hx : Numeral.NoDigit (Numeral.expText 'e' w n.exp ++ t) := by
    cases n.exp
    case none => exact ht.noDigit
    case some => simp [Numeral.expText]
  have hp : (Numeral.expText 'e' w n.exp ++ t).head? ≠ some '.' := by
    cases n.exp
    case none => exact ht.head_ne (by decide)
    case some => simp [Numeral.expText]
  have hf : Numeral.NoDigit (Numeral.fracText n.frac ++ (Numeral.expText 'e' w n.exp ++ t)) :=
    Numeral.fracText_noDigit hx
  have hs : ∀ u, (if (Numeral.signText n.neg ++ (n.int ++ u)).head? = some '-' then
      (true, (Numeral.signText n.neg ++ (n.int ++ u)).tail)
      else (false, Numeral.signText n.neg ++ (n.int ++ u))) = (n.neg, n.int ++ u) := by
    intro u
    cases n.neg
    case true  => rfl
    case false =>
      have := head_of_digits (t := u) hn.int_ne_nil hn.int_digits
      simp only [Numeral.signText, Bool.false_eq_true, if_false, List.nil_append, this]
  have hz : (if n.int.head? = some '0' then
      ((['0'] : Text),
        (n.int ++ (Numeral.fracText n.frac ++ (Numeral.expText 'e' w n.exp ++ t))).tail)
      else (n.int, Numeral.fracText n.frac ++ (Numeral.expText 'e' w n.exp ++ t))) =
      (n.int, Numeral.fracText n.frac ++ (Numeral.expText 'e' w n.exp ++ t)) := by
    split
    case isFalse => rfl
    case isTrue h =>
      cases hi : n.int
      case nil => simp [hi] at h
      case cons c ds =>
        have hc : c = '0' := by simpa [hi] using h
        subst hc
        rw [hn.int_head ds hi]
        rfl
  rw [scanNumber, Numeral.text]
  simp only [List.append_assoc, hs, Numeral.spanDigits_append hn.int_digits hf, hn.int_ne_nil,
    if_false, hz, scanFraction_fracText hn.frac_digits hx hp, scanExponent_expText ht]
  split <;> rfl

theorem skipWs_of_head {c : Char} {t : Text} (h : isWs c = false) : skipWs (c :: t) = c :: t := by
  simp [skipWs, h]

-- How the text of a value begins.
structure Starts (t : Text) : Prop where
  ne_nil : t ≠ []
  not_ws : ∀ c ∈ t.head?, isWs c = false
  not_close : t.head? ≠ some ']' ∧ t.head? ≠ some '}'

theorem Starts.append {t : Text} (h : Starts t) (u : Text) : Starts (t ++ u) := by
  have : (t ++ u).head? = t.head? := List.head?_append_of_ne_nil t h.ne_nil
  exact ⟨by simp [h.ne_nil], this ▸ h.not_ws, this ▸ h.not_close⟩

theorem Starts.skipWs {t : Text} (h : Starts t) : skipWs t = t := by
  cases t
  case nil => rfl
  case cons c t => exact skipWs_of_head (h.not_ws c rfl)

theorem Starts.cons {c : Char} {t : Text} (h : isWs c = false ∧ c ≠ ']' ∧ c ≠ '}') :
    Starts (c :: t) where
  ne_nil := by simp
  not_ws := by simpa using h.1
  not_close := by simpa using h.2

theorem numeral_head {n : Numeral} {w : ℕ} (hn : n.WF) :
    ∃ c t, n.text 'e' w = c :: t ∧ (c = '-' ∨ c.isDigit) := by
  rw [Numeral.text]
  cases n.neg
  case true  => exact ⟨'-', _, rfl, .inl rfl⟩
  case false =>
    cases hi : n.int
    case nil => exact absurd hi hn.int_ne_nil
    case cons c ds => exact ⟨c, _, rfl, .inr <| hn.int_digits c (by simp [hi])⟩

theorem numeral_head_cases {c : Char} (h : c = '-' ∨ c.isDigit) :
    (isWs c = false ∧ c ≠ ']' ∧ c ≠ '}') ∧ c ≠ '"' ∧ c ≠ '[' ∧ c ≠ '{' := by
  cases h
  case inl h => subst h; decide
  case inr h =>
    have hw : isWs c = false := by
      simp only [isWs, Bool.or_eq_false_iff, decide_eq_false_iff_not]
      refine ⟨⟨⟨?_, ?_⟩, ?_⟩, ?_⟩ <;> rintro rfl <;> contradiction
    refine ⟨⟨hw, ?_, ?_⟩, ?_, ?_, ?_⟩ <;> rintro rfl <;> contradiction

theorem intNumeral_wf (i : ℤ) : Numeral.WF ⟨i < 0, Nat.toDigits 10 i.natAbs, [], none⟩ where
  int_ne_nil := Nat.toDigits_ne_nil
  int_digits _ := Numeral.toDigits_isDigit
  frac_digits := by simp
  int_head _ := Numeral.toDigits_head

theorem emit_starts (v : Json) : Starts v.emit := by
  have num : ∀ {n : Numeral} {w : ℕ}, n.WF → Starts (n.text 'e' w) := by
    intro n w hn
    have ⟨c, t, he, hc⟩ := numeral_head (w := w) hn
    exact he ▸ .cons (numeral_head_cases hc).1
  cases v
  case null | bool b => first | (cases b <;> exact .cons (by decide)) | exact .cons (by decide)
  case int i => exact num (intNumeral_wf i)
  case float x =>
    cases x
    case nan => exact .cons (by decide)
    case inf neg => cases neg <;> exact .cons (by decide)
    case finite neg mag => exact num (mag.numeral_wf neg)
  case str => exact .cons (by decide)
  case arr xs => cases xs <;> exact .cons (by decide)
  case obj fs => cases fs <;> exact .cons (by decide)

-- A text that opens no string and no container is a number or a constant.
theorem scanValue_scalar {n : ℕ} {t : Text} (h : Starts t)
    (hq : t.head? ≠ some '"' ∧ t.head? ≠ some '[' ∧ t.head? ≠ some '{') :
    scanValue (n + 1) t = (scanNumber t <|> scanConstant t) := by
  rw [scanValue, h.skipWs]
  split <;> simp_all

theorem scanValue_numeral {n : Numeral} {w m : ℕ} {t : Text} {v : Json} (hn : n.WF)
    (h : scanNumber (n.text 'e' w ++ t) = some (v, t)) :
    scanValue (m + 1) (n.text 'e' w ++ t) = some (v, t) := by
  have ⟨c, u, he, hc⟩ := numeral_head (w := w) hn
  have ⟨h₁, h₂⟩ := numeral_head_cases hc
  rw [scanValue_scalar, h]
  · rfl
  · exact he ▸ .cons h₁
  · simpa [he] using h₂

theorem numeral_not_int (neg : Bool) (x : Binary64) :
    ¬((x.numeral neg).frac = [] ∧ (x.numeral neg).exp = none) := by
  simp only [Binary64.numeral]
  split_ifs <;> simp
  omega

def Scans (v : Json) : Prop :=
  ∀ n r, v.emit.length ≤ n → Stop r → scanValue n (v.emit ++ r) = some (v, r)

theorem scans_atom {v : Json} {m : Atom} (h : v.atom = some m) : Scans v := by
  intro n r hl hr
  have hp : 0 < v.emit.length := List.length_pos_iff.mpr (emit_starts v).ne_nil
  obtain ⟨n, rfl⟩ := Nat.exists_eq_succ_of_ne_zero (n := n) (by omega)
  cases v
  case null => rfl
  case bool b => cases b <;> rfl
  case int i =>
    refine scanValue_numeral (intNumeral_wf i) ?_
    have hi : (if decide (i < 0) = true then -(i.natAbs : ℤ) else i.natAbs) = i := by
      by_cases h : i < 0
      case pos => rw [if_pos (decide_eq_true h)]; omega
      case neg => rw [if_neg (by simpa using h)]; omega
    rw [scanNumber_text (intNumeral_wf i) hr, if_pos ⟨rfl, rfl⟩, Nat.ofDigitChars_ten_toDigits, hi]
  case float x =>
    cases x
    case nan => rfl
    case inf neg => cases neg <;> rfl
    case finite neg mag =>
      refine scanValue_numeral (mag.numeral_wf neg) ?_
      rw [scanNumber_text (mag.numeral_wf neg) hr, if_neg (numeral_not_int neg mag),
        Float64.ofDecimal_numeral]
  case str s =>
    simp only [emit, quote, List.cons_append, List.append_assoc, List.nil_append]
    rw [scanValue, skipWs_of_head (by decide)]
    simp only [scanString_of_quote, Option.bind_eq_bind, Option.bind_some]
  case arr | obj => simp [atom] at h

theorem scanElems_emit {xs : List Json} (h : ∀ x ∈ xs, Scans x) (n : ℕ) (r : Text)
    (hl : (emitElems xs).length ≤ n) : scanElems n (emitElems xs ++ r) = some (xs, r) := by
  induction xs generalizing n <;> cases n
  case nil.zero | cons.zero => simp [emitElems] at hl
  case nil.succ => rfl
  case cons.succ x xs hi n =>
    rw [List.forall_mem_cons] at h
    simp only [emitElems, List.cons_append, List.append_assoc, List.length_cons,
      List.length_append] at hl ⊢
    have hs : Stop (emitElems xs ++ r) := by
      cases xs <;> exact .cons (by simp)
    rw [scanElems, skipWs_of_head (by decide)]
    simp only [h.1 n _ (by omega) hs, hi h.2 n (by omega), Option.bind_eq_bind, Option.bind_some]

theorem scanMember_emit {k : Text} {v : Json} (h : Scans v) {n : ℕ} {r : Text} (hr : Stop r)
    (hl : v.emit.length ≤ n) :
    scanMember (n + 1) (quote k ++ (':' :: (v.emit ++ r))) = some ((k, v), r) := by
  simp only [quote, List.cons_append, List.append_assoc, List.nil_append]
  rw [scanMember, skipWs_of_head (by decide)]
  simp only [scanString_of_quote, Option.bind_eq_bind, Option.bind_some]
  rw [skipWs_of_head (by decide)]
  simp only [h n r hl hr, Option.bind_some]

theorem quote_length (k : Text) : 2 ≤ (quote k).length := by
  simp only [quote, List.length_append, List.length_cons, List.length_nil]
  omega

theorem scanMembers_emit {fs : List (Text × Json)} (h : ∀ f ∈ fs, Scans f.2) (n : ℕ) (r : Text)
    (hl : (emitMembers fs).length ≤ n) : scanMembers n (emitMembers fs ++ r) = some (fs, r) := by
  induction fs generalizing n <;> cases n
  case nil.zero | cons.zero => simp [emitMembers] at hl
  case nil.succ => rfl
  case cons.succ f fs hi n =>
    rw [List.forall_mem_cons] at h
    have := quote_length f.1
    simp only [emitMembers, List.cons_append, List.append_assoc, List.length_cons,
      List.length_append] at hl ⊢
    have hs : Stop (emitMembers fs ++ r) := by
      cases fs <;> exact .cons (by simp)
    obtain ⟨n, rfl⟩ := Nat.exists_eq_succ_of_ne_zero (n := n) (by omega)
    rw [scanMembers, skipWs_of_head (by decide)]
    simp only [scanMember_emit h.1 hs (n := n) (by omega), hi h.2 (n + 1) (by omega),
      Option.bind_eq_bind, Option.bind_some]

theorem dict_of_nodup {fs : List (Text × Json)} (h : (fs.map Prod.fst).Nodup) : dict fs = fs := by
  have : ∀ acc : List (Text × Json), ((acc ++ fs).map Prod.fst).Nodup →
      fs.foldl setMember acc = acc ++ fs := by
    induction fs
    case nil => simp
    case cons f fs hi =>
      intro acc hn
      have hf : f.1 ∉ acc.map Prod.fst := by
        simp only [List.map_append, List.map_cons, List.nodup_append] at hn
        exact fun hm => hn.2.2 f.1 hm f.1 (by simp) rfl
      rw [List.foldl_cons, setMember, if_neg hf, hi (List.nodup_cons.mp h).2 _ (by simpa using hn)]
      simp
  exact this [] h

theorem scans {v : Json} (h : v.WF) : Scans v := by
  induction v using container_ind
  case atom hm => exact scans_atom hm
  case arr xs hi =>
    intro n r hl hr
    rw [wf_arr] at h
    cases xs <;> cases n
    case nil.zero | cons.zero => simp [emit] at hl
    case nil.succ => rfl
    case cons.succ x xs n =>
      simp only [List.forall_mem_cons] at h hi
      simp only [emit, List.cons_append, List.append_assoc, List.length_cons,
        List.length_append] at hl ⊢
      have hs : Stop (emitElems xs ++ r) := by
        cases xs <;> exact .cons (by simp)
      have hx := emit_starts x |>.append (emitElems xs ++ r)
      rw [scanValue, skipWs_of_head (by decide)]
      simp only [hx.skipWs, hx.not_close.1, if_false, hi.1 h.1 n _ (by omega) hs,
        scanElems_emit (fun y hy => hi.2 y hy (h.2 y hy)) n r (by omega), Option.bind_eq_bind,
        Option.bind_some]
  case obj fs hi =>
    intro n r hl hr
    have ⟨hn, hw⟩ := wf_obj.mp h
    cases fs <;> cases n
    case nil.zero | cons.zero => simp [emit] at hl
    case nil.succ => rfl
    case cons.succ f fs n =>
      simp only [List.forall_mem_cons] at hw hi
      simp only [emit, List.cons_append, List.append_assoc, List.length_cons,
        List.length_append] at hl ⊢
      have := quote_length f.1
      have hs : Stop (emitMembers fs ++ r) := by
        cases fs <;> exact .cons (by simp)
      have hq : Starts (quote f.1 ++ (':' :: (f.2.emit ++ (emitMembers fs ++ r)))) :=
        .cons (by decide)
      obtain ⟨n, rfl⟩ := Nat.exists_eq_succ_of_ne_zero (n := n) (by omega)
      rw [scanValue, skipWs_of_head (by decide)]
      simp only [hq.skipWs, hq.not_close.2, if_false,
        scanMember_emit (hi.1 hw.1) hs (n := n) (by omega),
        scanMembers_emit (fun g hg => hi.2 g hg (hw.2 g hg)) (n + 1) r (by omega),
        Option.bind_eq_bind, Option.bind_some, dict_of_nodup hn]

theorem loads_emit {v : Json} (h : v.WF) : loads v.emit = some v := by
  have := scans h v.emit.length [] le_rfl .nil
  rw [List.append_nil] at this
  simp [loads, this, skipWs]

-- A stored value is read back with its names in order.
theorem loads_dumps {v : Json} (h : v.WF) : loads v.dumps = some v.sorted :=
  loads_emit (sorted_wf h)

end Json
