import EventLedger.Base.Utf8
import Mathlib.Data.List.TakeWhile

namespace Url

open Text

-- What a client library decides about the text of a URL: the characters that it leaves as they are
-- in a path, and how long a URL may be.
structure Rules where
  safe : Char → Bool
  maxLength : ℕ

variable {r : Rules} {c a b : Char} {s t u : Text}

-- The byte that `%` and two hexadecimal digits stand for.
def escapeValue (c a b : Char) : Option ℕ :=
  if c = '%' then
    (hexDigit a).bind fun x => (hexDigit b).map (16 * x + ·)
  else
    none

def beginsEscape : Text → Bool
  | c :: a :: b :: _ => (escapeValue c a b).isSome
  | _                => false

def hasEscape : Text → Bool
  | []     => false
  | c :: t => beginsEscape (c :: t) || hasEscape t

def escapeByte (n : ℕ) : Text :=
  ['%', (Nat.digitChar (n / 16)).toUpper, (Nat.digitChar (n % 16)).toUpper]

def quoteChar (r : Rules) (c : Char) : Text :=
  if r.safe c then [c] else (utf8 [c]).flatMap escapeByte

-- What is an escape already stays.
def quote (r : Rules) : Text → Text
  | []               => []
  | [c]              => quoteChar r c
  | [c, a]           => quoteChar r c ++ quoteChar r a
  | c :: a :: b :: t =>
    if (escapeValue c a b).isSome then
      c :: a :: b :: quote r t
    else
      quoteChar r c ++ quote r (a :: b :: t)

-- `unquote_to_bytes`.
def unescape : Text → List ℕ
  | []               => []
  | [c]              => utf8 [c]
  | [c, a]           => utf8 [c] ++ utf8 [a]
  | c :: a :: b :: t =>
    match escapeValue c a b with
    | some n => n :: unescape t
    | none   => utf8 [c] ++ unescape (a :: b :: t)

def unquote (t : Text) : Text :=
  decodeUtf8 (unescape t)

def isDots (s : Text) : Bool :=
  s = ['.'] || s = ['.', '.']

-- The segments that are left, from last to first.
def dropDots : List Text → List Text → List Text
  | out, []      => out
  | out, s :: ss =>
    if s = ['.'] then dropDots out ss
    else if s = ['.', '.'] then dropDots (if out = [[]] then out else out.tail) ss
    else dropDots (s :: out) ss

def normalizePath (t : Text) : Text :=
  ['/'].intercalate (dropDots [] (t.splitOn '/')).reverse

def isPrintable (c : Char) : Bool :=
  32 ≤ c.toNat && c.toNat ≠ 127

-- The path ends at the first mark of a query or of a fragment.
def path (t : Text) : Text :=
  t.takeWhile fun c => c ≠ '?' && c ≠ '#'

-- The path that a client sends for the text of a URL, unless it refuses the text.
def encode (r : Rules) (t : Text) : Option Text :=
  if t.length ≤ r.maxLength ∧ t.all isPrintable ∧ (quote r (path t)).length ≤ r.maxLength then
    some (quote r (normalizePath (path t)))
  else
    none

theorem escapeValue_of_ne (h : c ≠ '%') : escapeValue c a b = none :=
  if_neg h

theorem escapeValue_percent_left : escapeValue c '%' b = none := by
  have h : hexDigit '%' = none := by decide
  simp [escapeValue, h]

theorem escapeValue_percent_right : escapeValue c a '%' = none := by
  have h : hexDigit '%' = none := by decide
  simp [escapeValue, h]

theorem hexDigit_upper {d : ℕ} (h : d < 16) : hexDigit (Nat.digitChar d).toUpper = some d := by
  have : ∀ d < 16, hexDigit (Nat.digitChar d).toUpper = some d := by decide
  exact this d h

theorem unescape_escapeByte {n : ℕ} (h : n < 256) (t : Text) :
    unescape (escapeByte n ++ t) = n :: unescape t := by
  have he : escapeValue '%' (Nat.digitChar (n / 16)).toUpper (Nat.digitChar (n % 16)).toUpper =
      some (16 * (n / 16) + n % 16) := by
    simp [escapeValue, hexDigit_upper (show n / 16 < 16 by omega),
      hexDigit_upper (show n % 16 < 16 by omega)]
  simp only [escapeByte, List.cons_append, List.nil_append, unescape, he, Nat.div_add_mod]

theorem unescape_escapeBytes {bs : List ℕ} (h : ∀ n ∈ bs, n < 256) (t : Text) :
    unescape (bs.flatMap escapeByte ++ t) = bs ++ unescape t := by
  induction bs
  case nil => rfl
  case cons n bs hi =>
    rw [List.flatMap_cons, List.append_assoc, unescape_escapeByte (h n (by simp)),
      hi fun m hm => h m (by simp [hm]), List.cons_append]

theorem utf8_lt {n : ℕ} (h : n ∈ utf8 t) : n < 256 := by
  have ⟨_, _, hc⟩ := List.mem_flatMap.mp h
  have ⟨u, _, he⟩ := List.mem_map.mp hc
  exact he ▸ u.toNat_lt

-- A character that begins no escape.
theorem unescape_cons (h : ∀ a b u, t = a :: b :: u → escapeValue c a b = none) :
    unescape (c :: t) = utf8 [c] ++ unescape t := by
  match t with
  | []          => simp [unescape]
  | [a]         => simp [unescape]
  | a :: b :: u => simp [unescape, h a b u rfl]

theorem quote_head (c : Char) (t : Text) :
    quote r (c :: t) = c :: quote r t ∨ ∃ u, quote r (c :: t) = '%' :: u := by
  have hc : quoteChar r c = [c] ∨ ∃ u, quoteChar r c = '%' :: u := by
    unfold quoteChar
    split
    case isTrue => exact .inl rfl
    case isFalse =>
      have ⟨b, follow, he, _⟩ := scanScalar_utf8 c
      exact .inr ⟨_, by rw [he, List.flatMap_cons, escapeByte, List.cons_append]⟩
  match t with
  | [] =>
    rcases hc with hc | ⟨u, hc⟩
    case inl => exact .inl (by simp [quote, hc])
    case inr => exact .inr ⟨u, by simp [quote, hc]⟩
  | [a] =>
    rcases hc with hc | ⟨u, hc⟩
    case inl => exact .inl (by simp [quote, hc])
    case inr => exact .inr ⟨u ++ quoteChar r a, by simp [quote, hc]⟩
  | a :: b :: t =>
    by_cases he : (escapeValue c a b).isSome
    case pos =>
      have hp : c = '%' := by
        by_contra hn
        simp [escapeValue_of_ne hn] at he
      exact .inr ⟨_, by rw [quote, if_pos he, hp]⟩
    case neg =>
      rcases hc with hc | ⟨u, hc⟩
      case inl => exact .inl (by simp [quote, he, hc])
      case inr => exact .inr ⟨u ++ quote r (a :: b :: t), by simp [quote, he, hc]⟩

-- Quoting makes no escapes out of what is not one.
theorem quote_no_escape (h : ∀ a b u, t = a :: b :: u → escapeValue c a b = none) :
    ∀ a b u, quote r t = a :: b :: u → escapeValue c a b = none := by
  intro x y u hq
  match t with
  | [] => simp [quote] at hq
  | a :: t =>
    rcases quote_head (r := r) a t with ha | ⟨v, ha⟩
    case inr =>
      rw [ha] at hq
      rw [← (List.cons.inj hq).1]
      exact escapeValue_percent_left
    case inl =>
      rw [ha] at hq
      have ⟨hx, hq⟩ := List.cons.inj hq
      match t with
      | [] => simp [quote] at hq
      | b :: t =>
        rcases quote_head (r := r) b t with hb | ⟨v, hb⟩
        case inr =>
          rw [hb] at hq
          rw [← (List.cons.inj hq).1]
          exact escapeValue_percent_right
        case inl =>
          rw [hb] at hq
          rw [← hx, ← (List.cons.inj hq).1]
          exact h a b t rfl

theorem unescape_quoteChar (h : ∀ a b u, t = a :: b :: u → escapeValue c a b = none) :
    unescape (quoteChar r c ++ quote r t) = utf8 [c] ++ unescape (quote r t) := by
  unfold quoteChar
  split
  case isTrue  => exact unescape_cons (quote_no_escape h)
  case isFalse => exact unescape_escapeBytes (fun _ => utf8_lt) _

theorem unescape_quote (t : Text) : unescape (quote r t) = unescape t := by
  fun_induction quote r t
  case case1 => rfl
  case case2 c =>
    simpa [quote, unescape] using unescape_quoteChar (r := r) (c := c) (t := []) (by simp)
  case case3 c a =>
    have hc := unescape_quoteChar (r := r) (c := c) (t := [a]) (by simp)
    have ha := unescape_quoteChar (r := r) (c := a) (t := []) (by simp)
    simp only [quote, List.append_nil, unescape] at hc ha ⊢
    rw [hc, ha]
  case case4 c a b t he hi =>
    have ⟨n, hn⟩ := Option.isSome_iff_exists.mp he
    simp [unescape, hn, hi]
  case case5 c a b t he hi =>
    have hn := Option.not_isSome_iff_eq_none.mp he
    rw [unescape_quoteChar fun a' b' u h => by
      simp only [List.cons.injEq] at h
      rw [← h.1, ← h.2.1, hn], hi]
    simp [unescape, hn]

theorem unquote_quote (t : Text) : unquote (quote r t) = unquote t := by
  rw [unquote, unescape_quote, unquote]

theorem unescape_of_not_hasEscape (h : hasEscape t = false) : unescape t = utf8 t := by
  fun_induction unescape t
  case case1 => rfl
  case case2 => rfl
  case case3 c a => exact (utf8_append [c] [a]).symm
  case case4 hn hi => simp [hasEscape, beginsEscape, hn] at h
  case case5 c a b t hn hi =>
    rw [hi (by simpa [hasEscape, beginsEscape, hn] using h)]
    exact (utf8_append [c] (a :: b :: t)).symm

theorem unquote_of_not_hasEscape (h : hasEscape t = false) : unquote t = t := by
  rw [unquote, unescape_of_not_hasEscape h, decodeUtf8_utf8]

theorem unescape_pieces (t : Text) : Pieces t.length (unescape t) := by
  fun_induction unescape t
  case case1 => exact .nil
  case case2 c => simpa using Pieces.char c .nil
  case case3 c a => simpa using Pieces.char c (.char a .nil)
  case case4 n hn hi => exact (Pieces.byte n hi).mono (by simp)
  case case5 c a b t hn hi => exact .char c hi

theorem unescape_pieces_lt (h : hasEscape t) : ∃ n < t.length, Pieces n (unescape t) := by
  fun_induction unescape t
  case case1 => simp [hasEscape] at h
  case case2 => simp [hasEscape, beginsEscape] at h
  case case3 => simp [hasEscape, beginsEscape] at h
  case case4 n hn hi => exact ⟨_, by simp, .byte n (unescape_pieces _)⟩
  case case5 c a b t hn hi =>
    have ⟨n, hl, hp⟩ := hi (by simpa [hasEscape, beginsEscape, hn] using h)
    exact ⟨n + 1, by simpa using hl, .char c hp⟩

theorem unquote_length_le (t : Text) : (unquote t).length ≤ t.length :=
  (unescape_pieces t).decodeUtf8_length

-- An escape has more characters than what it stands for.
theorem unquote_length_lt (h : hasEscape t) : (unquote t).length < t.length :=
  have ⟨_, hl, hp⟩ := unescape_pieces_lt h
  hp.decodeUtf8_length.trans_lt hl

-- The length of the segments, each with the slash before it.
def size (ss : List Text) : ℕ :=
  (ss.map fun s => s.length + 1).sum

@[simp]
theorem size_cons (s : Text) (ss : List Text) : size (s :: ss) = s.length + 1 + size ss := by
  simp [size]

theorem size_reverse (ss : List Text) : size ss.reverse = size ss := by
  simp [size, List.sum_reverse]

theorem intercalate_length {ss : List Text} (h : ss ≠ []) :
    (['/'].intercalate ss).length + 1 = size ss := by
  induction ss
  case nil => contradiction
  case cons s ss hi =>
    cases ss
    case nil => simp [size]
    case cons s' ss =>
      have := hi (by simp)
      rw [List.intercalate_cons_of_ne_nil (by simp)]
      simp only [List.length_append, size_cons, List.length_cons, List.length_nil] at this ⊢
      omega

theorem splitOn_size (t : Text) : size (t.splitOn '/') = t.length + 1 := by
  rw [← intercalate_length (List.splitOn_ne_nil _ _), List.intercalate_splitOn]

theorem size_tail_le (ss : List Text) : size ss.tail ≤ size ss := by
  cases ss <;> simp

theorem dropDots_size_le (out ss : List Text) : size (dropDots out ss) ≤ size out + size ss := by
  fun_induction dropDots out ss
  case case1 => simp [size]
  case case2 hi => simp only [size_cons]; omega
  case case3 out ss _ hi =>
    have : size (if out = [[]] then out else out.tail) ≤ size out := by
      split
      case isTrue => exact le_rfl
      case isFalse => exact size_tail_le out
    simp only [size_cons] at hi ⊢
    omega
  case case4 hi => simp only [size_cons] at hi ⊢; omega

theorem dropDots_size_lt {out ss : List Text} (h : ∃ s ∈ ss, isDots s) :
    size (dropDots out ss) < size out + size ss := by
  fun_induction dropDots out ss
  case case1 => simp at h
  case case2 out ss hi =>
    have := dropDots_size_le out ss
    simp only [size_cons]
    omega
  case case3 out ss _ hi =>
    have h₁ := dropDots_size_le (if out = [[]] then out else out.tail) ss
    have h₂ : size (if out = [[]] then out else out.tail) ≤ size out := by
      split
      case isTrue => exact le_rfl
      case isFalse => exact size_tail_le out
    simp only [size_cons]
    omega
  case case4 out s ss hs hd hi =>
    have : ∃ s ∈ ss, isDots s := by
      simpa [isDots, hs, hd] using h
    have := hi this
    simp only [size_cons] at this ⊢
    omega

theorem dropDots_of_not_isDots {out ss : List Text} (h : ∀ s ∈ ss, isDots s = false) :
    dropDots out ss = ss.reverse ++ out := by
  fun_induction dropDots out ss
  case case1 => simp
  case case2 => simp [isDots] at h
  case case3 => simp [isDots] at h
  case case4 hi => rw [hi fun s hs => h s (by simp [hs])]; simp

theorem normalizePath_of_not_isDots (h : ∀ s ∈ t.splitOn '/', isDots s = false) :
    normalizePath t = t := by
  rw [normalizePath, dropDots_of_not_isDots h, List.append_nil, List.reverse_reverse,
    List.intercalate_splitOn]

theorem normalizePath_length_add_one_le (t : Text) : (normalizePath t).length + 1 ≤
    max 1 (size (dropDots [] (t.splitOn '/'))) := by
  rw [normalizePath]
  by_cases hn : dropDots [] (t.splitOn '/') = []
  case pos => simp [hn]
  case neg => rw [intercalate_length (by simpa using hn), size_reverse]; exact le_max_right _ _

theorem normalizePath_length_le (t : Text) : (normalizePath t).length ≤ t.length := by
  have h₁ := normalizePath_length_add_one_le t
  have h₂ := dropDots_size_le [] (t.splitOn '/')
  have h₃ := splitOn_size t
  simp only [size, List.map_nil, List.sum_nil] at h₂ h₃
  simp only [size] at h₁
  omega

-- A path that has segments of dots is longer than what is left of it.
theorem normalizePath_length_lt (h : ∃ s ∈ t.splitOn '/', isDots s) :
    (normalizePath t).length < t.length := by
  have h₁ := normalizePath_length_add_one_le t
  have h₂ : size (dropDots [] (t.splitOn '/')) < size [] + size (t.splitOn '/') :=
    dropDots_size_lt h
  have h₃ := splitOn_size t
  have h₄ : 0 < t.length := by
    obtain ⟨s, hs, hd⟩ := h
    cases t
    case nil => simp [List.splitOn_nil] at hs; simp [hs, isDots] at hd
    case cons => simp
  simp only [size, List.map_nil, List.sum_nil] at h₂ h₃
  simp only [size] at h₁
  omega

theorem path_of_no_mark (h : ∀ c ∈ t, c ≠ '?' ∧ c ≠ '#') : path t = t :=
  List.takeWhile_eq_self_iff.mpr fun c hc => by simpa using h c hc

theorem path_length_le (t : Text) : (path t).length ≤ t.length :=
  (List.takeWhile_prefix _).length_le

theorem no_mark_of_path_length (h : t.length ≤ (path t).length) :
    ∀ c ∈ t, c ≠ '?' ∧ c ≠ '#' := by
  have he : path t = t := (List.takeWhile_prefix _).eq_of_length_le h
  intro c hc
  simpa using List.takeWhile_eq_self_iff.mp he c hc

-- A text of which nothing is lost on its way.
structure Plain (t : Text) : Prop where
  no_mark : ∀ c ∈ t, c ≠ '?' ∧ c ≠ '#'
  no_dots : ∀ s ∈ t.splitOn '/', isDots s = false
  no_escape : hasEscape t = false

variable {p : Text}

theorem unquote_encode (h : encode r t = some p) :
    unquote p = unquote (normalizePath (path t)) := by
  unfold encode at h
  split at h
  case isTrue => rw [← Option.some.inj h, unquote_quote]
  case isFalse => cases h

theorem Plain.unquote_encode (ht : Plain t) (h : encode r t = some p) : unquote p = t := by
  rw [Url.unquote_encode h, path_of_no_mark ht.no_mark, normalizePath_of_not_isDots ht.no_dots,
    unquote_of_not_hasEscape ht.no_escape]

theorem unquote_encode_length_le (h : encode r t = some p) : (unquote p).length ≤ t.length := by
  rw [unquote_encode h]
  exact (unquote_length_le _).trans ((normalizePath_length_le _).trans (path_length_le _))

-- What is decoded is shorter than the text, unless the text is plain.
theorem plain_of_length_le (h : encode r t = some p) (hl : t.length ≤ (unquote p).length) :
    Plain t := by
  rw [unquote_encode h] at hl
  have h₁ := unquote_length_le (normalizePath (path t))
  have h₂ := normalizePath_length_le (path t)
  have hm := no_mark_of_path_length (t := t) (by omega)
  rw [path_of_no_mark hm] at hl h₁ h₂
  have hd : ∀ s ∈ t.splitOn '/', isDots s = false := by
    by_contra hn
    have := normalizePath_length_lt (t := t) (by simpa using hn)
    omega
  rw [normalizePath_of_not_isDots hd] at hl
  refine ⟨hm, hd, ?_⟩
  by_contra hn
  have := unquote_length_lt (by simpa using hn)
  omega

theorem encode_isSome : (encode r t).isSome ↔
    t.length ≤ r.maxLength ∧ t.all isPrintable ∧ (quote r (path t)).length ≤ r.maxLength := by
  rw [encode]
  split <;> simp_all

theorem beginsEscape_of_ne (h : c ≠ '%') : beginsEscape (c :: t) = false := by
  match t with
  | []          => rfl
  | [a]         => rfl
  | a :: b :: t => rw [beginsEscape, escapeValue_of_ne h, Option.isSome_none]

theorem hasEscape_append_left (hs : '%' ∉ s) : hasEscape (s ++ t) = hasEscape t := by
  induction s
  case nil => rfl
  case cons c s hi =>
    simp only [List.mem_cons, not_or] at hs
    rw [List.cons_append, hasEscape, beginsEscape_of_ne (Ne.symm hs.1), hi hs.2, Bool.false_or]

theorem hasEscape_of_not_mem (hs : '%' ∉ s) : hasEscape s = false := by
  rw [← List.append_nil s, hasEscape_append_left hs, hasEscape]

-- What begins with no digit completes no escape.
theorem beginsEscape_append (hu : ∀ c ∈ u.head?, hexDigit c = none) :
    beginsEscape (c :: t ++ u) = beginsEscape (c :: t) := by
  match t, u with
  | a :: b :: t, _      => rfl
  | [], []              => rfl
  | [], [a]             => rfl
  | [], a :: b :: u     => simp [beginsEscape, escapeValue, hu a (by simp)]
  | [a], []             => rfl
  | [a], b :: u         => simp [beginsEscape, escapeValue, hu b (by simp)]

theorem hasEscape_append_right (hm : '%' ∉ u) (hu : ∀ c ∈ u.head?, hexDigit c = none) :
    hasEscape (t ++ u) = hasEscape t := by
  induction t
  case nil => exact hasEscape_of_not_mem hm
  case cons c t hi => rw [hasEscape, ← beginsEscape_append hu, ← hi]; rfl

end Url
