import EventLedger.Base.Text

namespace Text

-- What the first byte of a sequence announces: its share of the scalar value, the number of bytes
-- that follow, and the range of the first of these.
structure Lead where
  share : ℕ
  follow : ℕ
  low : ℕ
  high : ℕ
  low_ge : 128 ≤ low
  high_le : high ≤ 191

def lead (b : ℕ) : Option Lead :=
  if b < 128 then
    some ⟨b, 0, 128, 191, by decide, by decide⟩
  else if b < 194 then
    none
  else if b < 224 then
    some ⟨b - 192, 1, 128, 191, by decide, by decide⟩
  else if b < 240 then
    some ⟨b - 224, 2, if b = 224 then 160 else 128, if b = 237 then 159 else 191,
      by split <;> decide, by split <;> decide⟩
  else if b < 245 then
    some ⟨b - 240, 3, if b = 240 then 144 else 128, if b = 244 then 143 else 191,
      by split <;> decide, by split <;> decide⟩
  else
    none

-- The bytes that follow the first one, up to the first byte that cannot.
def scanFollow : ℕ → ℕ → ℕ → ℕ → List ℕ → Option ℕ × List ℕ
  | 0,     _,   _,    acc, bs      => (some acc, bs)
  | _ + 1, _,   _,    _,   []      => (none, [])
  | n + 1, low, high, acc, b :: bs =>
    if low ≤ b ∧ b ≤ high then
      scanFollow n 128 191 (acc * 64 + (b - 128)) bs
    else
      (none, b :: bs)

def replacement : Char := Char.ofNat 0xFFFD

def scanScalar (b : ℕ) (bs : List ℕ) : Char × List ℕ :=
  match lead b with
  | none   => (replacement, bs)
  | some l =>
    match scanFollow l.follow l.low l.high l.share bs with
    | (some n, rest) => (Char.ofNat n, rest)
    | (none, rest)   => (replacement, rest)

def decodeFuel : ℕ → List ℕ → Text
  | _,     []      => []
  | 0,     _       => []
  | n + 1, b :: bs => (scanScalar b bs).1 :: decodeFuel n (scanScalar b bs).2

-- `decode("utf-8", errors="replace")`.
def decodeUtf8 (bs : List ℕ) : Text :=
  decodeFuel bs.length bs

-- The bytes that follow are continuations, and what is left begins after them.
theorem scanFollow_rest {n low high acc : ℕ} {bs : List ℕ} (hl : 128 ≤ low) (hh : high ≤ 191) :
    ∃ taken, bs = taken ++ (scanFollow n low high acc bs).2 ∧ ∀ b ∈ taken, 128 ≤ b ∧ b ≤ 191 := by
  fun_induction scanFollow n low high acc bs
  case case1 => exact ⟨[], by simp⟩
  case case2 => exact ⟨[], by simp⟩
  case case3 b bs hb hi =>
    have ⟨taken, he, ht⟩ := hi (by decide) (by decide)
    refine ⟨b :: taken, by rw [List.cons_append, ← he], fun c hc => ?_⟩
    cases hc
    case head      => omega
    case tail hc => exact ht c hc
  case case4 => exact ⟨[], by simp⟩

theorem scanScalar_rest (b : ℕ) (bs : List ℕ) :
    ∃ taken, bs = taken ++ (scanScalar b bs).2 ∧ ∀ b ∈ taken, 128 ≤ b ∧ b ≤ 191 := by
  unfold scanScalar
  split
  case h_1 => exact ⟨[], by simp⟩
  case h_2 l _ =>
    have ⟨taken, he, ht⟩ : ∃ taken, bs = taken ++ (scanFollow l.follow l.low l.high l.share bs).2 ∧
        ∀ b ∈ taken, 128 ≤ b ∧ b ≤ 191 := scanFollow_rest l.low_ge l.high_le
    split
    case h_1 hs => exact ⟨taken, by rwa [hs] at he, ht⟩
    case h_2 hs => exact ⟨taken, by rwa [hs] at he, ht⟩

theorem scanScalar_length (b : ℕ) (bs : List ℕ) : (scanScalar b bs).2.length ≤ bs.length := by
  have ⟨taken, he, _⟩ := scanScalar_rest b bs
  have := congrArg List.length he
  rw [List.length_append] at this
  omega

theorem decodeFuel_eq {n : ℕ} {bs : List ℕ} (h : bs.length ≤ n) :
    decodeFuel n bs = decodeUtf8 bs := by
  suffices ∀ n m (bs : List ℕ), bs.length ≤ n → bs.length ≤ m →
      decodeFuel n bs = decodeFuel m bs from this n bs.length bs h le_rfl
  intro n
  induction n
  case zero =>
    intro m bs hn _
    rw [List.length_eq_zero_iff.mp (Nat.le_zero.mp hn), decodeFuel, decodeFuel]
  case succ n hi =>
    intro m bs hn hm
    cases bs
    case nil => rw [decodeFuel, decodeFuel]
    case cons b bs =>
      have := scanScalar_length b bs
      cases m
      case zero => simp at hm
      case succ m =>
        simp only [List.length_cons, Nat.add_le_add_iff_right] at hn hm
        rw [decodeFuel, decodeFuel, hi m _ (by omega) (by omega)]

theorem decodeUtf8_nil : decodeUtf8 [] = [] :=
  rfl

theorem decodeUtf8_cons (b : ℕ) (bs : List ℕ) :
    decodeUtf8 (b :: bs) = (scanScalar b bs).1 :: decodeUtf8 (scanScalar b bs).2 := by
  rw [decodeUtf8, List.length_cons, decodeFuel, decodeFuel_eq (scanScalar_length b bs)]

theorem toNat_lt (c : Char) : c.toNat < 0x110000 ∧ ¬(0xD800 ≤ c.toNat ∧ c.toNat ≤ 0xDFFF) := by
  have := c.valid
  simp only [UInt32.isValidChar, Nat.isValidChar] at this
  change c.val.toNat < 0x110000 ∧ ¬(0xD800 ≤ c.val.toNat ∧ c.val.toNat ≤ 0xDFFF)
  omega

-- The numbers of the bytes of a character.
theorem utf8_char (c : Char) : (String.utf8EncodeChar c).map UInt8.toNat =
    if c.toNat ≤ 127 then [c.toNat]
    else if c.toNat ≤ 2047 then [c.toNat / 64 + 192, c.toNat % 64 + 128]
    else if c.toNat ≤ 65535 then
      [c.toNat / 4096 + 224, c.toNat / 64 % 64 + 128, c.toNat % 64 + 128]
    else
      [c.toNat / 262144 + 240, c.toNat / 4096 % 64 + 128, c.toNat / 64 % 64 + 128,
        c.toNat % 64 + 128] := by
  have := toNat_lt c
  have hn : c.val.toNat = c.toNat := rfl
  simp only [String.utf8EncodeChar, hn]
  split_ifs <;> simp <;> omega

theorem scanFollow_cons {n low high acc b : ℕ} {bs : List ℕ} (h : low ≤ b ∧ b ≤ high) :
    scanFollow (n + 1) low high acc (b :: bs) = scanFollow n 128 191 (acc * 64 + (b - 128)) bs :=
  if_pos h

theorem scanScalar_of_follow {b n : ℕ} {l : Lead} {bs rest : List ℕ} (hl : lead b = some l)
    (hf : scanFollow l.follow l.low l.high l.share bs = (some n, rest)) :
    scanScalar b bs = (Char.ofNat n, rest) := by
  simp only [scanScalar, hl, hf]

-- A character is the first one that is read from its bytes and what follows them.
theorem scanScalar_utf8 (c : Char) : ∃ b follow, utf8 [c] = b :: follow ∧ (b < 128 ∨ 192 ≤ b) ∧
    ∀ bs, scanScalar b (follow ++ bs) = (c, bs) := by
  have hv := toNat_lt c
  rw [utf8_cons, utf8_nil, List.append_nil, utf8_char]
  generalize hn : c.toNat = n at hv
  have hc : c = Char.ofNat n := by rw [← hn, Char.ofNat_toNat]
  subst hc
  split_ifs with h₁ h₂ h₃
  case pos =>
    refine ⟨_, [], rfl, by omega, fun bs => ?_⟩
    exact scanScalar_of_follow (if_pos (by omega)) rfl
  case pos =>
    refine ⟨_, _, rfl, by omega, fun bs => ?_⟩
    have hl : lead (n / 64 + 192) = some ⟨n / 64, 1, 128, 191, by decide, by decide⟩ := by
      simp only [lead, Nat.add_sub_cancel]
      rw [if_neg (by omega), if_neg (by omega), if_pos (by omega)]
    refine scanScalar_of_follow hl ?_
    dsimp only
    rw [List.cons_append, scanFollow_cons (by omega)]
    simp only [scanFollow, List.nil_append, Prod.mk.injEq, Option.some.injEq, and_true]
    omega
  case pos =>
    refine ⟨_, _, rfl, by omega, fun bs => ?_⟩
    have hl : lead (n / 4096 + 224) = some ⟨n / 4096, 2,
        if n / 4096 + 224 = 224 then 160 else 128, if n / 4096 + 224 = 237 then 159 else 191,
        by split <;> decide, by split <;> decide⟩ := by
      simp only [lead, Nat.add_sub_cancel]
      rw [if_neg (by omega), if_neg (by omega), if_neg (by omega), if_pos (by omega)]
    refine scanScalar_of_follow hl ?_
    dsimp only
    rw [List.cons_append, scanFollow_cons (by split <;> split <;> omega), List.cons_append,
      scanFollow_cons (by omega)]
    simp only [scanFollow, List.nil_append, Prod.mk.injEq, Option.some.injEq, and_true]
    omega
  case neg =>
    refine ⟨_, _, rfl, by omega, fun bs => ?_⟩
    have hl : lead (n / 262144 + 240) = some ⟨n / 262144, 3,
        if n / 262144 + 240 = 240 then 144 else 128, if n / 262144 + 240 = 244 then 143 else 191,
        by split <;> decide, by split <;> decide⟩ := by
      simp only [lead, Nat.add_sub_cancel]
      rw [if_neg (by omega), if_neg (by omega), if_neg (by omega), if_neg (by omega),
        if_pos (by omega)]
    refine scanScalar_of_follow hl ?_
    dsimp only
    rw [List.cons_append, scanFollow_cons (by split <;> split <;> omega), List.cons_append,
      scanFollow_cons (by omega), List.cons_append, scanFollow_cons (by omega)]
    simp only [scanFollow, List.nil_append, Prod.mk.injEq, Option.some.injEq, and_true]
    omega

theorem decodeUtf8_utf8_cons (c : Char) (bs : List ℕ) :
    decodeUtf8 (utf8 [c] ++ bs) = c :: decodeUtf8 bs := by
  have ⟨b, follow, he, _, hs⟩ := scanScalar_utf8 c
  rw [he, List.cons_append, decodeUtf8_cons, hs]

theorem decodeUtf8_utf8 (t : Text) : decodeUtf8 (utf8 t) = t := by
  induction t
  case nil => rfl
  case cons c t hi =>
    have h : utf8 (c :: t) = utf8 [c] ++ utf8 t := utf8_append [c] t
    rw [h, decodeUtf8_utf8_cons, hi]

-- A sequence of bytes that consists of at most `n` pieces: bytes and encoded characters.
inductive Pieces : ℕ → List ℕ → Prop
  | nil {n} : Pieces n []
  | byte {n bs} (b : ℕ) : Pieces n bs → Pieces (n + 1) (b :: bs)
  | char {n bs} (c : Char) : Pieces n bs → Pieces (n + 1) (utf8 [c] ++ bs)

namespace Pieces

variable {n m : ℕ} {bs : List ℕ}

theorem mono (h : Pieces n bs) (hm : n ≤ m) : Pieces m bs := by
  induction h generalizing m
  case nil => exact .nil
  case byte b _ hi =>
    have ⟨k, hk⟩ := Nat.exists_eq_add_of_le' (Nat.le_trans (Nat.le_add_left 1 _) hm)
    exact hk ▸ .byte b (hi (by omega))
  case char c _ hi =>
    have ⟨k, hk⟩ := Nat.exists_eq_add_of_le' (Nat.le_trans (Nat.le_add_left 1 _) hm)
    exact hk ▸ .char c (hi (by omega))

-- Continuations are pieces of their own: no character begins with one.
theorem of_follow {taken rest : List ℕ} (h : Pieces n (taken ++ rest))
    (ht : ∀ b ∈ taken, 128 ≤ b ∧ b ≤ 191) : Pieces n rest := by
  induction taken generalizing n
  case nil => exact h
  case cons b taken hi =>
    have hb := ht b (by simp)
    generalize hbs : b :: taken ++ rest = bs at h
    cases h
    case nil => simp at hbs
    case byte n bs c h =>
      have he := (List.cons.inj hbs).2
      exact (hi (he ▸ h) fun d hd => ht d (by simp [hd])).mono (by omega)
    case char n bs c h =>
      have ⟨d, follow, he, hd, _⟩ := scanScalar_utf8 c
      rw [he, List.cons_append, List.cons_append] at hbs
      have := (List.cons.inj hbs).1
      omega

-- No piece is decoded to more than one character.
theorem decodeUtf8_length (h : Pieces n bs) : (decodeUtf8 bs).length ≤ n := by
  induction hl : bs.length using Nat.strong_induction_on generalizing n bs
  case h l hi =>
    cases h
    case nil => simp [decodeUtf8_nil]
    case byte n bs b h =>
      have ⟨taken, he, ht⟩ := scanScalar_rest b bs
      have hr : Pieces n (scanScalar b bs).2 := of_follow (he ▸ h) ht
      have hb := scanScalar_length b bs
      have := hi _ (by simp at hl; omega) hr rfl
      rw [decodeUtf8_cons, List.length_cons]
      omega
    case char n bs c h =>
      have ⟨b, follow, he, _, _⟩ := scanScalar_utf8 c
      have := hi bs.length (by rw [← hl, he, List.length_append, List.length_cons]; omega) h rfl
      rw [decodeUtf8_utf8_cons, List.length_cons]
      omega

end Pieces

end Text
