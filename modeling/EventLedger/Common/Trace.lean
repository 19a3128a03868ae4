import EventLedger.Base.PyString

namespace Trace

-- The class `[0-9a-f]` of the patterns.
def isHex (c : Char) : Bool :=
  c.isDigit || ('a' ≤ c && c ≤ 'f')

-- `[0-9a-f]{n}`, matched in full.
structure Hex (n : ℕ) (t : Text) : Prop where
  length : t.length = n
  digits : ∀ c ∈ t, isHex c

theorem hex_iff {n : ℕ} {t : Text} : Hex n t ↔ t.length = n ∧ t.all isHex where
  mp h  := ⟨h.length, List.all_eq_true.mpr h.digits⟩
  mpr h := ⟨h.1, List.all_eq_true.mp h.2⟩

instance (n : ℕ) (t : Text) : Decidable (Hex n t) :=
  decidable_of_iff _ hex_iff.symm

abbrev HexText (n : ℕ) :=
  { t : Text // Hex n t }

-- The groups of `_TRACEPARENT_PATTERN`.
structure Traceparent where
  version : HexText 2
  traceId : HexText 32
  spanId : HexText 16
  traceFlags : HexText 2

def Traceparent.text (p : Traceparent) : Text :=
  p.version.1 ++ '-' :: (p.traceId.1 ++ '-' :: (p.spanId.1 ++ '-' :: p.traceFlags.1))

def hexField (n : ℕ) (t : Text) : Option (HexText n × Text) :=
  if h : Hex n (t.take n) then some (⟨t.take n, h⟩, t.drop n) else none

def hyphen : Text → Option Text
  | c :: t => if c = '-' then some t else none
  | []     => none

-- `_TRACEPARENT_PATTERN.match`. The `$` is found before a final line feed, too.
def matchTraceparent (t : Text) : Option Traceparent := do
  let (version, t) ← hexField 2 t
  let t ← hyphen t
  let (traceId, t) ← hexField 32 t
  let t ← hyphen t
  let (spanId, t) ← hexField 16 t
  let t ← hyphen t
  let (traceFlags, t) ← hexField 2 t
  if t = [] ∨ t = ['\n'] then some { version, traceId, spanId, traceFlags } else none

def zeros : Text :=
  List.replicate 32 '0'

variable (endsWord : Text → Text → Bool)

def traceIdFromTraceparent (value : Option Text) : Option Text := do
  let normalized := (Text.pyStrip (value.getD [])).lower endsWord
  let p ← matchTraceparent normalized
  if p.traceId.1 = zeros then none else some p.traceId.1

-- What `uuid4().hex` is each time.
abbrev Uuid := HexText 32

def traceIdFromHeader (newTraceId : Uuid) (value : Option Text) : Text :=
  let normalized := Text.pyStrip (value.getD [])
  if normalized = [] then newTraceId.1 else normalized

def traceIdFromHeaders (newTraceId : Uuid) (traceId traceparent : Option Text) : Text :=
  match traceIdFromTraceparent endsWord traceparent with
  | some (c :: t) => c :: t
  | _             => traceIdFromHeader newTraceId traceId

def traceparentFromTraceId (uuid : Uuid) (traceId : Text) : Option Text :=
  let normalized := traceId.lower endsWord
  if ¬Hex 32 normalized ∨ normalized = zeros then
    none
  else
    some ("00-".toList ++ normalized ++ '-' :: uuid.1.take 16 ++ "-01".toList)

end Trace

-- The headers `X-Trace-Id` and `traceparent` of a request.
structure TraceHeaders where
  traceId : Option Text
  traceparent : Option Text

namespace TraceHeaders

variable (endsWord : Text → Text → Bool)

-- The identifier for which the middleware of either service takes a request.
def resolve (newTraceId : Trace.Uuid) (headers : TraceHeaders) : Text :=
  Trace.traceIdFromHeaders endsWord newTraceId headers.traceId headers.traceparent

-- The headers that the client of the Gateway sends for an identifier.
def ofTraceId (uuid : Trace.Uuid) (traceId : Text) : TraceHeaders where
  traceId := some traceId
  traceparent := Trace.traceparentFromTraceId endsWord uuid traceId

end TraceHeaders

namespace Trace

variable {t r : Text} {n : ℕ} {c : Char} {p : Traceparent}

theorem hexField_eq_some_iff {f : HexText n} : hexField n t = some (f, r) ↔ t = f.1 ++ r := by
  refine ⟨fun h => ?_, fun h => ?_⟩
  case refine_1 =>
    rw [hexField] at h
    split at h
    case isTrue =>
      cases h
      exact (List.take_append_drop n t).symm
    case isFalse => exact nomatch h
  case refine_2 =>
    have ht : t.take n = f.1 := h ▸ List.take_left' f.2.length
    have hd : t.drop n = r := h ▸ List.drop_left' f.2.length
    simp only [hexField, ht, hd, f.2, dite_true]

theorem hyphen_eq_some_iff : hyphen t = some r ↔ t = '-' :: r := by
  cases t <;> simp [hyphen]

theorem matchTraceparent_eq_some_iff : matchTraceparent t = some p ↔
    ∃ r, (r = [] ∨ r = ['\n']) ∧ t = p.text ++ r := by
  simp only [matchTraceparent, bind, Option.bind_eq_some_iff, Prod.exists, hexField_eq_some_iff,
    hyphen_eq_some_iff, Option.ite_none_right_eq_some, Option.some_inj]
  refine ⟨?_, ?_⟩
  case refine_1 =>
    rintro ⟨v, _, rfl, _, rfl, i, _, rfl, _, rfl, s, _, rfl, _, rfl, f, r, rfl, hr, rfl⟩
    exact ⟨r, hr, by simp [Traceparent.text]⟩
  case refine_2 =>
    rintro ⟨r, hr, ht⟩
    have ht : t = p.version.1 ++ '-' :: (p.traceId.1 ++
        '-' :: (p.spanId.1 ++ '-' :: (p.traceFlags.1 ++ r))) := by
      simpa [Traceparent.text] using ht
    exact ⟨p.version, _, ht, _, rfl, p.traceId, _, rfl, _, rfl, p.spanId, _, rfl, _, rfl,
      p.traceFlags, r, rfl, hr, rfl⟩

theorem ascii_ind {P : Char → Prop} (h : ∀ n < 128, P (Char.ofNat n)) (hc : c.toNat ≤ 127) : P c :=
  Char.ofNat_toNat c ▸ h c.toNat (Nat.lt_succ_of_le hc)

theorem toNat_le_of_le {d : Char} (h : c ≤ d) : c.toNat ≤ d.toNat :=
  UInt32.le_iff_toNat_le.mp h

theorem toNat_of_isHex (h : isHex c) : c.toNat ≤ 127 := by
  simp only [isHex, Bool.or_eq_true, Bool.and_eq_true, decide_eq_true_eq] at h
  obtain h | ⟨_, h⟩ := h
  case inl => exact Text.isDigit_ascii h
  case inr => exact (toNat_le_of_le h).trans (by decide)

theorem toNat_of_hexDigit (h : (Text.hexDigit c).isSome) : c.toNat ≤ 127 := by
  rw [Text.hexDigit] at h
  split at h
  case isTrue hd => exact Text.isDigit_ascii hd
  split at h
  case isTrue hd => exact (toNat_le_of_le hd.2).trans (by decide)
  split at h
  case isTrue hd => exact (toNat_le_of_le hd.2).trans (by decide)
  case isFalse   => exact nomatch h

-- A digit of either case.
theorem isHex_toLower_iff (hc : c.toNat ≤ 127) : isHex c.toLower ↔ (Text.hexDigit c).isSome :=
  ascii_ind (P := fun c => isHex c.toLower ↔ (Text.hexDigit c).isSome) (by decide +kernel) hc

theorem toLower_eq_self_iff (hc : c.toNat ≤ 127) : c.toLower = c ↔ ¬c.isUpper :=
  ascii_ind (P := fun c => c.toLower = c ↔ ¬c.isUpper) (by decide +kernel) hc

theorem isAlpha_of_isUpper (hc : c.toNat ≤ 127) (h : c.isUpper) : c.isAlpha ∧ c.toLower.isAlpha :=
  ascii_ind (P := fun c => c.isUpper → c.isAlpha ∧ c.toLower.isAlpha) (by decide +kernel) hc h

theorem toLower_eq_iff {d : Char} (hc : c.toNat ≤ 127) (hd : d.isAlpha = false) :
    c.toLower = d ↔ c = d := by
  by_cases hu : c.isUpper
  case pos =>
    obtain ⟨ha, hl⟩ := isAlpha_of_isUpper hc hu
    refine iff_of_false ?_ ?_
    case refine_1 => rintro rfl; simp [hl] at hd
    case refine_2 => rintro rfl; simp [ha] at hd
  case neg => rw [(toLower_eq_self_iff hc).mpr hu]

-- The characters of a traceparent, and the line feed after it.
def IsPlain (c : Char) : Prop :=
  isHex c ∨ c = '-' ∨ c = '\n'

theorem IsPlain.ascii (h : IsPlain c) : c.toNat ≤ 127 := by
  obtain h | rfl | rfl := h
  case inl => exact toNat_of_isHex h
  all_goals decide

theorem IsPlain.ne (h : IsPlain c) : c ≠ 'i' ∧ c ≠ 'k' :=
  ascii_ind (P := fun c => (isHex c ∨ c = '-' ∨ c = '\n') → c ≠ 'i' ∧ c ≠ 'k')
    (by decide +kernel) h.ascii h

theorem not_isUpper_of_isHex (h : isHex c) : ¬c.isUpper :=
  ascii_ind (P := fun c => isHex c → ¬c.isUpper) (by decide +kernel) (toNat_of_isHex h) h

theorem hexDigit_of_isHex (h : isHex c) : (Text.hexDigit c).isSome :=
  ascii_ind (P := fun c => isHex c → (Text.hexDigit c).isSome) (by decide +kernel)
    (toNat_of_isHex h) h

theorem not_isPySpace_of_hexDigit (h : (Text.hexDigit c).isSome) : Text.isPySpace c = false :=
  ascii_ind (P := fun c => (Text.hexDigit c).isSome → Text.isPySpace c = false) (by decide +kernel)
    (toNat_of_hexDigit h) h

theorem trimmed_of_forall (h : ∀ c ∈ t, Text.isPySpace c = false) :
    Text.Trimmed Text.isPySpace t where
  head c hc := h c <| List.mem_of_head? hc
  last c hc := h c <| List.mem_of_getLast? hc

-- The digits of either case.
structure AnyHex (n : ℕ) (t : Text) : Prop where
  length : t.length = n
  digits : ∀ c ∈ t, (Text.hexDigit c).isSome

theorem AnyHex.ascii (h : AnyHex n t) : t.IsAscii :=
  fun c hc => toNat_of_hexDigit (h.digits c hc)

theorem AnyHex.ne_nil (h : AnyHex (n + 1) t) : t ≠ [] := by
  rintro rfl
  exact nomatch h.length

theorem anyHex_iff (h : t.IsAscii) : Hex n (t.map Char.toLower) ↔ AnyHex n t := by
  refine ⟨fun hh => ⟨?_, fun c hc => ?_⟩, fun hh => ⟨?_, fun d hd => ?_⟩⟩
  case refine_1 => simpa using hh.length
  case refine_2 => exact (isHex_toLower_iff (h c hc)).mp <| hh.digits _ <| List.mem_map_of_mem hc
  case refine_3 => simpa using hh.length
  case refine_4 =>
    obtain ⟨c, hc, rfl⟩ := List.mem_map.mp hd
    exact (isHex_toLower_iff (h c hc)).mpr (hh.digits c hc)

theorem map_toLower_eq_self (h : t.IsAscii) : t.map Char.toLower = t ↔ ∀ c ∈ t, ¬c.isUpper := by
  have he : t.map Char.toLower = t.map id ↔ ∀ c ∈ t, c.toLower = c := List.map_inj_left
  rw [List.map_id] at he
  exact he.trans <| forall₂_congr fun c hc => toLower_eq_self_iff (h c hc)

theorem Hex.map_toLower (h : Hex n t) : t.map Char.toLower = t :=
  (map_toLower_eq_self fun c hc => toNat_of_isHex (h.digits c hc)).mpr fun c hc =>
    not_isUpper_of_isHex (h.digits c hc)

theorem Hex.anyHex (h : Hex n t) : AnyHex n t where
  length      := h.length
  digits c hc := hexDigit_of_isHex (h.digits c hc)

variable {endsWord : Text → Text → Bool}

-- What is plain in lower case has been of ASCII before.
theorem lower_of_plain (h : ∀ c ∈ t.lower endsWord, IsPlain c) :
    t.IsAscii ∧ t.lower endsWord = t.map Char.toLower := by
  have ha : t.IsAscii := Text.isAscii_of_lower fun c hc => ⟨(h c hc).ascii, (h c hc).ne⟩
  exact ⟨ha, Text.lower_ascii ha⟩

theorem hex_lower_iff : Hex n (t.lower endsWord) ↔ AnyHex n t := by
  refine ⟨fun h => ?_, fun h => ?_⟩
  case refine_1 =>
    obtain ⟨ha, he⟩ := lower_of_plain fun c hc => .inl (h.digits c hc)
    exact (anyHex_iff ha).mp (he ▸ h)
  case refine_2 => exact Text.lower_ascii h.ascii ▸ (anyHex_iff h.ascii).mpr h

theorem eq_zeros_iff : t = zeros ↔ t.length = 32 ∧ ∀ c ∈ t, c = '0' :=
  List.eq_replicate_iff

theorem map_toLower_eq_zeros (h : t.IsAscii) : t.map Char.toLower = zeros ↔ t = zeros := by
  simp only [eq_zeros_iff, List.length_map, List.forall_mem_map]
  exact and_congr_right fun _ => forall₂_congr fun c hc => toLower_eq_iff (h c hc) rfl

-- A text that is a traceparent but for the case of its digits, and the identifier in it.
def Names (t i : Text) : Prop :=
  ∃ v s f, AnyHex 2 v ∧ AnyHex 32 i ∧ AnyHex 16 s ∧ AnyHex 2 f ∧
    t = v ++ '-' :: (i ++ '-' :: (s ++ '-' :: f))

theorem mem_text (h : c ∈ p.text) : isHex c ∨ c = '-' := by
  simp only [Traceparent.text, List.mem_append, List.mem_cons] at h
  obtain h | rfl | h | rfl | h | rfl | h := h
  case inl                     => exact .inl <| p.version.2.digits c h
  case inr.inr.inl             => exact .inl <| p.traceId.2.digits c h
  case inr.inr.inr.inr.inl     => exact .inl <| p.spanId.2.digits c h
  case inr.inr.inr.inr.inr.inr => exact .inl <| p.traceFlags.2.digits c h
  all_goals exact .inr rfl

theorem pyStrip_text (p : Traceparent) : Text.pyStrip p.text = p.text := by
  refine Text.trim_eq_self <| trimmed_of_forall fun c h => ?_
  obtain h | rfl := mem_text h
  case inl => exact not_isPySpace_of_hexDigit (hexDigit_of_isHex h)
  case inr => decide

theorem names_of_map_toLower (h : t.IsAscii) (he : t.map Char.toLower = p.text) :
    ∃ i, Names t i ∧ i.map Char.toLower = p.traceId.1 := by
  rw [Traceparent.text] at he
  obtain ⟨v, _, rfl, hv, he⟩ := List.map_eq_append_iff.mp he
  obtain ⟨c, _, rfl, hc, he⟩ := List.map_eq_cons_iff.mp he
  obtain ⟨i, _, rfl, hi, he⟩ := List.map_eq_append_iff.mp he
  obtain ⟨d, _, rfl, hd, he⟩ := List.map_eq_cons_iff.mp he
  obtain ⟨s, _, rfl, hs, he⟩ := List.map_eq_append_iff.mp he
  obtain ⟨e, f, rfl, hh, hf⟩ := List.map_eq_cons_iff.mp he
  simp only [Text.IsAscii, List.forall_mem_append, List.forall_mem_cons] at h
  obtain ⟨av, ac, ai, ad, as, ae, af⟩ := h
  rw [toLower_eq_iff ac rfl] at hc
  rw [toLower_eq_iff ad rfl] at hd
  rw [toLower_eq_iff ae rfl] at hh
  subst hc hd hh
  exact ⟨i, ⟨v, s, f, (anyHex_iff av).mp (hv ▸ p.version.2), (anyHex_iff ai).mp (hi ▸ p.traceId.2),
    (anyHex_iff as).mp (hs ▸ p.spanId.2), (anyHex_iff af).mp (hf ▸ p.traceFlags.2), rfl⟩, hi⟩

theorem map_toLower_of_names {i : Text} (h : Names t i) :
    ∃ p : Traceparent, t.map Char.toLower = p.text ∧ i.map Char.toLower = p.traceId.1 := by
  obtain ⟨v, s, f, hv, hi, hs, hf, rfl⟩ := h
  refine ⟨⟨⟨v.map Char.toLower, (anyHex_iff hv.ascii).mpr hv⟩,
    ⟨i.map Char.toLower, (anyHex_iff hi.ascii).mpr hi⟩,
    ⟨s.map Char.toLower, (anyHex_iff hs.ascii).mpr hs⟩,
    ⟨f.map Char.toLower, (anyHex_iff hf.ascii).mpr hf⟩⟩, ?_, rfl⟩
  simp only [Traceparent.text, List.map_append, List.map_cons]
  rfl

theorem Names.anyHex {i : Text} (h : Names t i) : AnyHex 32 i := by
  obtain ⟨_, _, _, _, hi, _⟩ := h
  exact hi

theorem Names.ascii {i : Text} (h : Names t i) : t.IsAscii := by
  obtain ⟨v, s, f, hv, hi, hs, hf, rfl⟩ := h
  simp only [Text.IsAscii, List.forall_mem_append, List.forall_mem_cons]
  exact ⟨hv.ascii, by decide, hi.ascii, by decide, hs.ascii, by decide, hf.ascii⟩

-- A line feed is white space, so that none is left at the end of a header.
theorem lower_eq_text (ht : Text.Trimmed Text.isPySpace t) (hr : r = [] ∨ r = ['\n'])
    (h : t.lower endsWord = p.text ++ r) : t.IsAscii ∧ t.map Char.toLower = p.text := by
  obtain ⟨ha, he⟩ : t.IsAscii ∧ t.lower endsWord = t.map Char.toLower := by
    refine lower_of_plain fun c hc => ?_
    rw [h, List.mem_append] at hc
    obtain hc | hc := hc
    case inl => exact (mem_text hc).imp_right .inl
    case inr =>
      obtain rfl | rfl := hr
      case inl => exact nomatch hc
      case inr => exact .inr <| .inr <| List.mem_singleton.mp hc
  refine ⟨ha, ?_⟩
  rw [he] at h
  obtain rfl | rfl := hr
  case inl => rwa [List.append_nil] at h
  case inr =>
    obtain ⟨u, v, rfl, _, hv⟩ := List.map_eq_append_iff.mp h
    obtain ⟨c, w, rfl, hc, hw⟩ := List.map_eq_cons_iff.mp hv
    rw [List.map_eq_nil_iff] at hw
    subst hw
    rw [toLower_eq_iff (ha c (by simp)) rfl] at hc
    exact absurd (ht.last c (by simp)) (by subst hc; decide)

-- The identifier of a header is found in any case of its digits.
theorem traceIdFromTraceparent_eq_some_iff {value : Option Text} :
    traceIdFromTraceparent endsWord value = some r ↔
    ∃ i, Names (Text.pyStrip (value.getD [])) i ∧ i ≠ zeros ∧ i.map Char.toLower = r := by
  generalize hs : Text.pyStrip (value.getD []) = s
  have ht : Text.Trimmed Text.isPySpace s := hs ▸ Text.trim_trimmed _ _
  simp only [traceIdFromTraceparent, hs, bind, Option.bind_eq_some_iff,
    matchTraceparent_eq_some_iff, Option.ite_none_left_eq_some, Option.some_inj]
  refine ⟨?_, ?_⟩
  case refine_1 =>
    rintro ⟨p, ⟨e, he, hp⟩, hz, rfl⟩
    obtain ⟨ha, hm⟩ := lower_eq_text ht he hp
    obtain ⟨i, hn, hi⟩ := names_of_map_toLower ha hm
    refine ⟨i, hn, fun hiz => hz ?_, hi⟩
    rw [← hi, hiz]
    exact (map_toLower_eq_zeros (hiz ▸ hn.anyHex.ascii)).mpr rfl
  case refine_2 =>
    rintro ⟨i, hn, hz, rfl⟩
    obtain ⟨p, hp, hi⟩ := map_toLower_of_names hn
    refine ⟨p, ⟨[], .inl rfl, ?_⟩, ?_, hi.symm⟩
    case refine_1 => rw [Text.lower_ascii hn.ascii, hp, List.append_nil]
    case refine_2 => rwa [← hi, map_toLower_eq_zeros hn.anyHex.ascii]

theorem names_text (p : Traceparent) : Names p.text p.traceId.1 :=
  ⟨_, _, _, p.version.2.anyHex, p.traceId.2.anyHex, p.spanId.2.anyHex, p.traceFlags.2.anyHex, rfl⟩

theorem traceIdFromTraceparent_text (h : p.traceId.1 ≠ zeros) :
    traceIdFromTraceparent endsWord (some p.text) = some p.traceId.1 := by
  refine traceIdFromTraceparent_eq_some_iff.mpr ⟨p.traceId.1, ?_, h, p.traceId.2.map_toLower⟩
  rw [Option.getD_some, pyStrip_text]
  exact names_text p

variable {uuid : Uuid}

theorem spanId_hex (uuid : Uuid) : Hex 16 (uuid.1.take 16) where
  length     := by rw [List.length_take, uuid.2.length]; rfl
  digits c h := uuid.2.digits c <| List.mem_of_mem_take h

theorem traceparentFromTraceId_of_anyHex (h : AnyHex 32 t) (hz : t ≠ zeros) : ∃ p : Traceparent,
    traceparentFromTraceId endsWord uuid t = some p.text ∧ p.traceId.1 = t.map Char.toLower := by
  have hl : t.lower endsWord = t.map Char.toLower := Text.lower_ascii h.ascii
  have hh : Hex 32 (t.map Char.toLower) := (anyHex_iff h.ascii).mpr h
  refine ⟨⟨⟨['0', '0'], by decide⟩, ⟨_, hh⟩, ⟨_, spanId_hex uuid⟩, ⟨['0', '1'], by decide⟩⟩,
    ?_, rfl⟩
  rw [traceparentFromTraceId, hl, if_neg]
  case hnc => simp only [hh, map_toLower_eq_zeros h.ascii, hz, not_true, or_false, not_false_iff]
  simp [Traceparent.text]

theorem traceparentFromTraceId_eq_none (h : ¬(AnyHex 32 t ∧ t ≠ zeros)) :
    traceparentFromTraceId endsWord uuid t = none := by
  refine if_pos ?_
  rw [hex_lower_iff]
  by_contra hn
  push Not at hn
  refine h ⟨hn.1, fun hz => hn.2 ?_⟩
  rw [Text.lower_ascii hn.1.ascii, map_toLower_eq_zeros hn.1.ascii, hz]

end Trace
