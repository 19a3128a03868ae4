import EventLedger.Common.Trace

namespace TraceHeaders

open Trace

variable {endsWord : Text → Text → Bool} {uuid newTraceId : Uuid} {headers : TraceHeaders}
variable {t : Text}

theorem resolve_of_traceparent (h : traceIdFromTraceparent endsWord headers.traceparent = some t)
    (hn : t ≠ []) : headers.resolve endsWord newTraceId = t := by
  obtain ⟨c, t, rfl⟩ := List.exists_cons_of_ne_nil hn
  rw [resolve, traceIdFromHeaders, h]

theorem resolve_of_none (h : traceIdFromTraceparent endsWord headers.traceparent = none) :
    headers.resolve endsWord newTraceId = traceIdFromHeader newTraceId headers.traceId := by
  rw [resolve, traceIdFromHeaders, h]

theorem resolve_ofTraceId_none (ht : Text.Trimmed Text.isPySpace t) (hn : t ≠ [])
    (h : traceparentFromTraceId endsWord uuid t = none) :
    (ofTraceId endsWord uuid t).resolve endsWord newTraceId = t := by
  have hp : traceIdFromTraceparent endsWord (ofTraceId endsWord uuid t).traceparent = none := by
    rw [ofTraceId, h, Option.eq_none_iff_forall_ne_some]
    intro r hr
    obtain ⟨i, ⟨v, s, f, _, _, _, _, he⟩, _⟩ := traceIdFromTraceparent_eq_some_iff.mp hr
    cases v <;> exact nomatch he
  rw [resolve_of_none hp, ofTraceId, traceIdFromHeader, Option.getD_some, Text.pyStrip,
    Text.trim_eq_self ht, if_neg hn]

-- The other service finds an identifier of digits in lower case.
theorem resolve_ofTraceId_anyHex (h : AnyHex 32 t) :
    (ofTraceId endsWord uuid t).resolve endsWord newTraceId = t.map Char.toLower := by
  by_cases hz : t = zeros
  case pos =>
    have ht := trimmed_of_forall fun c hc => not_isPySpace_of_hexDigit (h.digits c hc)
    rw [resolve_ofTraceId_none ht h.ne_nil
      (traceparentFromTraceId_eq_none fun hh => hh.2 hz), hz]
    rfl
  case neg =>
    obtain ⟨p, hp, hi⟩ : ∃ p : Traceparent, traceparentFromTraceId endsWord uuid t = some p.text ∧
        p.traceId.1 = t.map Char.toLower := traceparentFromTraceId_of_anyHex h hz
    have hz' : p.traceId.1 ≠ zeros := by rwa [hi, Ne, map_toLower_eq_zeros h.ascii]
    rw [← hi]
    refine resolve_of_traceparent ?_ p.traceId.2.anyHex.ne_nil
    rw [ofTraceId, hp, traceIdFromTraceparent_text hz']

theorem resolve_ofTraceId_other (ht : Text.Trimmed Text.isPySpace t) (hn : t ≠ [])
    (h : ¬AnyHex 32 t) : (ofTraceId endsWord uuid t).resolve endsWord newTraceId = t :=
  resolve_ofTraceId_none ht hn <| traceparentFromTraceId_eq_none fun hh => h hh.1

theorem resolve_ofTraceId_hex (h : Hex 32 t) :
    (ofTraceId endsWord uuid t).resolve endsWord newTraceId = t := by
  rw [resolve_ofTraceId_anyHex h.anyHex, h.map_toLower]

theorem resolve_ofTraceId_trimmed (ht : Text.Trimmed Text.isPySpace t) (hn : t ≠ []) :
    (ofTraceId endsWord uuid t).resolve endsWord newTraceId = t ↔
    ¬(AnyHex 32 t ∧ ∃ c ∈ t, c.isUpper) := by
  by_cases h : AnyHex 32 t
  case pos =>
    rw [resolve_ofTraceId_anyHex h, map_toLower_eq_self h.ascii]
    simp [h]
  case neg => exact iff_of_true (resolve_ofTraceId_other ht hn h) fun hh => h hh.1

-- No identifier in `traceparent`, and 32 digits with a capital letter in `X-Trace-Id`.
structure Capital (headers : TraceHeaders) : Prop where
  traceparent : ∀ i, Names (Text.pyStrip (headers.traceparent.getD [])) i → i = zeros
  digits : AnyHex 32 (Text.pyStrip (headers.traceId.getD []))
  capital : ∃ c ∈ Text.pyStrip (headers.traceId.getD []), c.isUpper

theorem capital_iff (h : traceIdFromTraceparent endsWord headers.traceparent = none) :
    headers.Capital ↔ AnyHex 32 (Text.pyStrip (headers.traceId.getD [])) ∧
      ∃ c ∈ Text.pyStrip (headers.traceId.getD []), c.isUpper := by
  refine ⟨fun hc => ⟨hc.digits, hc.capital⟩, fun hc => ⟨fun i hi => ?_, hc.1, hc.2⟩⟩
  by_contra hz
  exact nomatch h.symm.trans <| traceIdFromTraceparent_eq_some_iff.mpr ⟨i, hi, hz, rfl⟩

theorem resolve_ofTraceId_iff (endsWord : Text → Text → Bool) (newTraceId uuid newTraceId' : Uuid)
    (headers : TraceHeaders) :
    (ofTraceId endsWord uuid (headers.resolve endsWord newTraceId)).resolve endsWord newTraceId' =
      headers.resolve endsWord newTraceId ↔ ¬headers.Capital := by
  cases hp : traceIdFromTraceparent endsWord headers.traceparent
  case some t =>
    obtain ⟨i, hi, hz, rfl⟩ := traceIdFromTraceparent_eq_some_iff.mp hp
    have hh : Hex 32 (i.map Char.toLower) := (anyHex_iff hi.anyHex.ascii).mpr hi.anyHex
    rw [resolve_of_traceparent hp hh.anyHex.ne_nil]
    exact iff_of_true (resolve_ofTraceId_hex hh) fun h => hz (h.traceparent i hi)
  case none =>
    rw [resolve_of_none hp, traceIdFromHeader, capital_iff hp]
    split
    case isTrue hs =>
      refine iff_of_true (resolve_ofTraceId_hex newTraceId.2) fun h => ?_
      exact nomatch hs ▸ h.1.length
    case isFalse hs => exact resolve_ofTraceId_trimmed (Text.trim_trimmed _ _) hs

def sampleUuid : Uuid :=
  ⟨List.replicate 32 'a', by decide⟩

-- An identifier that has been written with capital letters.
def capitals : TraceHeaders where
  traceId := some "4BF92F3577B34DA6A3CE929D0E0E4736".toList
  traceparent := none

theorem resolve_ofTraceId_capitals : ¬∀ (endsWord : Text → Text → Bool)
    (newTraceId uuid newTraceId' : Uuid) (headers : TraceHeaders),
    (ofTraceId endsWord uuid (headers.resolve endsWord newTraceId)).resolve endsWord newTraceId' =
      headers.resolve endsWord newTraceId := by
  intro h
  have he := h (fun _ _ => false) sampleUuid sampleUuid sampleUuid capitals
  exact absurd he (by decide +kernel)

end TraceHeaders
