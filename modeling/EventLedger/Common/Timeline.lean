import EventLedger.Base.Table
import EventLedger.Common.Rows

namespace Civil

variable {a b : Civil} {cs : List Civil} {limit : ℕ}

-- The order of the texts: within a second, the times with a fraction come before those without.
theorem formatUtc_le_iff : Text.utf8 (Time.formatUtc a) ≤ Text.utf8 (Time.formatUtc b) ↔
    a.wholeSecond < b.wholeSecond ∨ a.wholeSecond = b.wholeSecond ∧
      (b.micro = 0 ∨ a.micro ≠ 0 ∧ a.micro ≤ b.micro) := by
  rw [← not_lt, Time.formatUtc_eq, Time.formatUtc_eq, secondText_append_lt_iff, microText_lt_iff]
  omega

theorem instant_le_iff : a.instant ≤ b.instant ↔
    a.wholeSecond < b.wholeSecond ∨ a.wholeSecond = b.wholeSecond ∧ a.micro ≤ b.micro := by
  rw [← not_lt, instant_lt_iff]
  omega

-- The times that have a fraction of a second.
def fractions (cs : List Civil) : List Civil :=
  cs.filter (·.micro ≠ 0)

-- The times that are shown of a list, its first ones, are in order, and none is left out that is
-- later than one of them.
structure LatestFirst (cs : List Civil) (limit : ℕ) : Prop where
  ordered : (cs.take limit).Pairwise fun a b => a.instant ≤ b.instant
  latest : ∀ a ∈ cs.take limit, ∀ b ∈ cs.drop limit, b.instant ≤ a.instant

-- All of the times lie within one second, and those with a fraction are none, as many as are shown,
-- or so many and all the same.
def OneSecond (cs : List Civil) (limit : ℕ) : Prop :=
  (∀ a ∈ cs, ∀ b ∈ cs, a.wholeSecond = b.wholeSecond) ∧
  (fractions cs = [] ∨ (fractions cs).length = limit ∨
    limit ≤ (fractions cs).length ∧ ∀ a ∈ fractions cs, ∀ b ∈ fractions cs, a = b)

theorem SplitsSecond.symm (h : SplitsSecond a b) : SplitsSecond b a :=
  ⟨h.1.symm, fun he => h.2 he.symm⟩

theorem not_splitsSecond_self (a : Civil) : ¬SplitsSecond a a :=
  fun h => h.2 Iff.rfl

theorem instant_le_iff_of_le (h : Text.utf8 (Time.formatUtc a) ≤ Text.utf8 (Time.formatUtc b)) :
    a.instant ≤ b.instant ↔ ¬SplitsSecond a b := by
  rw [formatUtc_le_iff] at h
  rw [instant_le_iff, SplitsSecond]
  omega

theorem instant_ge_iff_of_le (h : Text.utf8 (Time.formatUtc a) ≤ Text.utf8 (Time.formatUtc b)) :
    b.instant ≤ a.instant ↔
    a.wholeSecond = b.wholeSecond ∧ (a.micro = b.micro ∨ a.micro ≠ 0 ∧ b.micro = 0) := by
  rw [formatUtc_le_iff] at h
  rw [instant_le_iff]
  omega

theorem pairwise_not_splitsSecond : cs.Pairwise (¬SplitsSecond · ·) ↔
    ∀ a ∈ cs, ∀ b ∈ cs, ¬SplitsSecond a b := by
  constructor
  case mp =>
    intro hp a ha b hb
    have : Std.Symm fun a b : Civil => ¬SplitsSecond a b := ⟨fun _ _ h hs => h hs.symm⟩
    exact hp.forall_of_forall (fun a _ => not_splitsSecond_self a) ha hb
  case mpr => exact List.pairwise_of_forall_mem_list

theorem eq_of_micro (hw : a.wholeSecond = b.wholeSecond) (hm : a.micro = b.micro) : a = b :=
  instant_injective (le_antisymm (instant_le_iff.mpr (.inr ⟨hw, hm.le⟩))
    (instant_le_iff.mpr (.inr ⟨hw.symm, hm.ge⟩)))

theorem mem_fractions : a ∈ fractions cs ↔ a ∈ cs ∧ a.micro ≠ 0 := by
  simp [fractions]

theorem oneSecond_perm {ds : List Civil} (h : cs.Perm ds) :
    OneSecond cs limit ↔ OneSecond ds limit := by
  have hf : (fractions cs).Perm (fractions ds) := h.filter _
  simp only [OneSecond, h.mem_iff, hf.mem_iff, hf.length_eq, ← List.length_eq_zero_iff]

section Sorted

variable (hs : cs.Pairwise fun a b => Text.utf8 (Time.formatUtc a) ≤ Text.utf8 (Time.formatUtc b))

include hs

theorem pairwise_instant_iff : cs.Pairwise (fun a b => a.instant ≤ b.instant) ↔
    ∀ a ∈ cs, ∀ b ∈ cs, ¬SplitsSecond a b := by
  rw [← pairwise_not_splitsSecond]
  constructor
  case mp  => exact fun hp => hs.imp₂ (fun _ _ h he => (instant_le_iff_of_le h).mp he) hp
  case mpr => exact fun hp => hs.imp₂ (fun _ _ h he => (instant_le_iff_of_le h).mpr he) hp

-- All the times are shown.
theorem latestFirst_of_length_le (hl : cs.length ≤ limit) : LatestFirst cs limit ↔
    ∀ a ∈ cs, ∀ b ∈ cs, ¬SplitsSecond a b := by
  rw [← pairwise_instant_iff hs]
  constructor
  case mp  => exact fun h => List.take_of_length_le hl ▸ h.ordered
  case mpr =>
    intro h
    refine ⟨(List.take_of_length_le hl).symm ▸ h, ?_⟩
    simp [List.drop_eq_nil_of_le hl]

omit hs in
theorem OneSecond.not_splitsSecond (h : OneSecond cs limit) (hl : cs.length ≤ limit) :
    ∀ a ∈ cs, ∀ b ∈ cs, ¬SplitsSecond a b := by
  obtain ⟨_, hf⟩ := h
  have hn : fractions cs = [] ∨ fractions cs = cs := by
    have hle : (fractions cs).length ≤ cs.length := List.length_filter_le ..
    have heq : limit ≤ (fractions cs).length → fractions cs = cs := fun h =>
      List.filter_sublist.eq_of_length (by rw [← fractions]; omega)
    rcases hf with hf | hf | hf
    case inl => exact .inl hf
    case inr.inl => exact .inr (heq hf.ge)
    case inr.inr => exact .inr (heq hf.1)
  intro a ha b hb hab
  have hm (c : Civil) : c ∈ fractions cs ↔ c ∈ cs ∧ c.micro ≠ 0 := mem_fractions
  rcases hn with hn | hn
  case inl =>
    simp only [hn, List.not_mem_nil, false_iff, not_and, not_not] at hm
    exact hab.2 (iff_of_true (hm a ha) (hm b hb))
  case inr =>
    have hc : ∀ c ∈ cs, c.micro ≠ 0 := fun c hc => (mem_fractions.mp (hn.symm ▸ hc)).2
    exact hab.2 (iff_of_false (hc a ha) (hc b hb))

-- The times with a fraction come first, when all are in one second.
theorem fractions_append (hw : ∀ a ∈ cs, ∀ b ∈ cs, a.wholeSecond = b.wholeSecond) :
    fractions cs ++ cs.filter (·.micro = 0) = cs := by
  have hp : cs.Pairwise fun a b : Civil => decide (b.micro ≠ 0) → decide (a.micro ≠ 0) := by
    refine hs.imp_of_mem fun {a b} ha hb h => ?_
    have hab := hw a ha b hb
    rw [formatUtc_le_iff] at h
    simp only [decide_eq_true_eq]
    omega
  have h := List.filter_append_filter_not hp
  simpa [fractions] using h

-- The times with a fraction are in order, and none without one is later.
theorem OneSecond.latestFirst (h : OneSecond cs limit) (hf : limit ≤ (fractions cs).length)
    (he : ∀ a ∈ (fractions cs).take limit, ∀ b ∈ (fractions cs).drop limit, a = b) :
    LatestFirst cs limit := by
  have ht : cs.take limit = (fractions cs).take limit := by
    rw [← List.take_append_of_le_length hf, fractions_append hs h.1]
  have hd : cs.drop limit = (fractions cs).drop limit ++ cs.filter (·.micro = 0) := by
    rw [← List.drop_append_of_le_length hf, fractions_append hs h.1]
  constructor
  case ordered =>
    rw [ht]
    have hsub : ((fractions cs).take limit).Sublist cs :=
      (List.take_sublist ..).trans List.filter_sublist
    rw [pairwise_instant_iff (hs.sublist hsub)]
    intro a ha b hb hab
    have hm := fun c (hc : c ∈ (fractions cs).take limit) =>
      (mem_fractions.mp (List.mem_of_mem_take hc)).2
    exact hab.2 (iff_of_false (hm a ha) (hm b hb))
  case latest =>
    rw [ht, hd]
    intro a ha b hb
    rcases List.mem_append.mp hb with hb | hb
    case inl => rw [he a ha b hb]
    case inr =>
      have ha := (mem_fractions.mp (List.mem_of_mem_take ha)).1
      have hb : b ∈ cs ∧ b.micro = 0 := by simpa using hb
      exact instant_le_iff.mpr (.inr ⟨h.1 b hb.1 a ha, by omega⟩)

theorem latestFirst_of_oneSecond (h : OneSecond cs limit) : LatestFirst cs limit := by
  rcases h.2 with hf | hf | ⟨hf, he⟩
  case inl =>
    have hz : ∀ c ∈ cs, c.micro = 0 := fun c hc => by
      by_contra hn
      simpa [hf] using mem_fractions.mpr ⟨hc, hn⟩
    have hi : ∀ a ∈ cs, ∀ b ∈ cs, a.instant ≤ b.instant := fun a ha b hb =>
      instant_le_iff.mpr (.inr ⟨h.1 a ha b hb, by simp [hz a ha]⟩)
    have ht : ∀ a ∈ cs.take limit, a ∈ cs := fun _ => List.mem_of_mem_take
    exact ⟨List.pairwise_of_forall_mem_list fun a ha b hb => hi a (ht a ha) b (ht b hb),
      fun a ha b hb => hi b (List.mem_of_mem_drop hb) a (ht a ha)⟩
  case inr.inl => exact h.latestFirst hs hf.ge (by simp [List.drop_eq_nil_of_le hf.le])
  case inr.inr =>
    exact h.latestFirst hs hf fun a ha b hb =>
      he a (List.mem_of_mem_take ha) b (List.mem_of_mem_drop hb)

-- Some times are left out: those shown and those left out lie in one second.
theorem LatestFirst.oneSecond (h : LatestFirst cs limit) (hl : 1 ≤ limit)
    (hlt : limit < cs.length) :
    OneSecond cs limit := by
  have hta : cs.take limit ++ cs.drop limit = cs := List.take_append_drop ..
  have hcross : ∀ a ∈ cs.take limit, ∀ b ∈ cs.drop limit,
      a.wholeSecond = b.wholeSecond ∧ (a.micro = b.micro ∨ a.micro ≠ 0 ∧ b.micro = 0) := by
    intro a ha b hb
    have hp := (List.pairwise_append.mp (hta.symm ▸ hs)).2.2
    exact (instant_ge_iff_of_le (hp a ha b hb)).mp (h.latest a ha b hb)
  have hshown : ∀ a ∈ cs.take limit, ∀ b ∈ cs.take limit, ¬SplitsSecond a b :=
    (pairwise_instant_iff (hs.sublist (List.take_sublist ..))).mp h.ordered
  have hmem : ∀ c ∈ cs, c ∈ cs.take limit ∨ c ∈ cs.drop limit := fun c hc =>
    List.mem_append.mp (hta.symm ▸ hc)
  obtain ⟨a₀, ha₀⟩ : ∃ a, a ∈ cs.take limit := List.exists_mem_of_length_pos (by simp; omega)
  obtain ⟨b₀, hb₀⟩ : ∃ b, b ∈ cs.drop limit := List.exists_mem_of_length_pos (by simp; omega)
  have hw₀ : ∀ c ∈ cs, c.wholeSecond = a₀.wholeSecond := by
    intro c hc
    rcases hmem c hc with hc | hc
    case inl => exact (hcross c hc b₀ hb₀).1.trans (hcross a₀ ha₀ b₀ hb₀).1.symm
    case inr => exact (hcross a₀ ha₀ c hc).1.symm
  refine ⟨fun a ha b hb => (hw₀ a ha).trans (hw₀ b hb).symm, ?_⟩
  have hmicro : ∀ a ∈ cs.take limit, (a.micro = 0 ↔ a₀.micro = 0) := fun a ha => by
    by_contra hn
    exact hshown a ha a₀ ha₀ ⟨hw₀ a (List.mem_of_mem_take ha), hn⟩
  by_cases hz : a₀.micro = 0
  case pos =>
    left
    refine List.eq_nil_iff_forall_not_mem.mpr fun c hc => ?_
    obtain ⟨hc, hn⟩ := mem_fractions.mp hc
    rcases hmem c hc with hc | hc
    case inl => exact hn ((hmicro c hc).mpr hz)
    case inr => exact (hcross a₀ ha₀ c hc).2.elim (fun he => hn (he ▸ hz)) (fun h => h.1 hz)
  case neg =>
    right
    have hf : fractions cs = cs.take limit ++ fractions (cs.drop limit) := by
      have ht : fractions (cs.take limit) = cs.take limit := by
        simpa [fractions, List.filter_eq_self, hmicro] using fun a ha => (hmicro a ha).not.mpr hz
      conv_lhs => rw [← hta, fractions, List.filter_append]
      exact congrArg (· ++ _) ht
    have hlen : (cs.take limit).length = limit := List.length_take_of_le hlt.le
    by_cases hd : fractions (cs.drop limit) = []
    case pos => exact .inl (by rw [hf, hd, List.append_nil, hlen])
    case neg =>
      obtain ⟨b₁, hb₁⟩ := List.exists_mem_of_ne_nil _ hd
      obtain ⟨hb₁, hn⟩ := mem_fractions.mp hb₁
      have heq : ∀ a ∈ cs.take limit, a.micro = b₁.micro := fun a ha =>
        (hcross a ha b₁ hb₁).2.resolve_right fun h => hn h.2
      refine .inr ⟨by simp [hf, hlen], fun a ha b hb => ?_⟩
      have hall : ∀ c ∈ fractions cs, c.micro = b₁.micro := by
        intro c hc
        rcases List.mem_append.mp (hf ▸ hc) with hc | hc
        case inl => exact heq c hc
        case inr =>
          obtain ⟨hc, hcn⟩ := mem_fractions.mp hc
          exact ((hcross a₀ ha₀ c hc).2.resolve_right fun h => hcn h.2).symm.trans (heq a₀ ha₀)
      have hwf := fun c hc => hw₀ c (mem_fractions.mp hc).1
      exact eq_of_micro ((hwf a ha).trans (hwf b hb).symm) ((hall a ha).trans (hall b hb).symm)

theorem latestFirst_iff (hl : 1 ≤ limit) : LatestFirst cs limit ↔
    (cs.length ≤ limit ∧ ∀ a ∈ cs, ∀ b ∈ cs, ¬SplitsSecond a b) ∨ OneSecond cs limit := by
  by_cases hle : cs.length ≤ limit
  case pos =>
    rw [latestFirst_of_length_le hs hle]
    exact ⟨fun h => .inl ⟨hle, h⟩, fun h => h.elim (·.2) (·.not_splitsSecond hle)⟩
  case neg =>
    simp only [hle, false_and, false_or]
    exact ⟨fun h => h.oneSecond hs hl (not_le.mp hle), latestFirst_of_oneSecond hs⟩

end Sorted

end Civil

namespace PayloadColumns

-- ORDER BY event_timestamp ASC, event_id ASC
def timeColumns (row : PayloadColumns) : List (List ℕ) :=
  [Text.utf8 row.eventTimestamp, Text.utf8 row.eventId]

-- Two rows whose times lie within one second and of which exactly one has a fraction.
def SplitsSecond (r s : PayloadColumns) : Prop :=
  ∃ c d, Time.parseTimestamp r.eventTimestamp = .ok c ∧
    Time.parseTimestamp s.eventTimestamp = .ok d ∧ Civil.SplitsSecond c d

end PayloadColumns

namespace EventPayload

variable {p q : EventPayload}

-- The order of a history: by time, and at one time by the bytes of the id.
def Earlier (p q : EventPayload) : Prop :=
  p.eventTimestamp.instant < q.eventTimestamp.instant ∨
  p.eventTimestamp = q.eventTimestamp ∧ Text.utf8 p.eventId < Text.utf8 q.eventId

theorem splitsSecond_columns : p.columns.SplitsSecond q.columns ↔
    Civil.SplitsSecond p.eventTimestamp q.eventTimestamp := by
  simp [PayloadColumns.SplitsSecond, columns, Time.parseTimestamp_formatUtc]

theorem timeColumns_le_iff : p.columns.timeColumns ≤ q.columns.timeColumns ↔
    Text.utf8 (Time.formatUtc p.eventTimestamp) < Text.utf8 (Time.formatUtc q.eventTimestamp) ∨
    p.eventTimestamp = q.eventTimestamp ∧ Text.utf8 p.eventId ≤ Text.utf8 q.eventId := by
  simp only [PayloadColumns.timeColumns, columns, le_iff_lt_or_eq, List.cons_lt_cons_iff,
    List.cons.injEq, List.not_lt_nil, and_true, and_false, or_false, Text.utf8_injective.eq_iff,
    Time.formatUtc_injective.eq_iff]
  tauto

-- The order of the columns is that of time just if the times do not split a second.
theorem earlier_iff (h : p.columns.timeColumns ≤ q.columns.timeColumns)
    (hn : p.eventId ≠ q.eventId) :
    p.Earlier q ↔ ¬Civil.SplitsSecond p.eventTimestamp q.eventTimestamp := by
  rw [timeColumns_le_iff] at h
  constructor
  case mp =>
    intro he hs
    rcases he with he | ⟨he, _⟩
    case inr => exact Civil.not_splitsSecond_self _ (he ▸ hs)
    case inl =>
      have hl := Time.formatUtc_lt_of_splitsSecond hs he
      rcases h with h | ⟨h, _⟩
      case inl => exact lt_asymm h hl
      case inr => exact Civil.not_splitsSecond_self _ (h ▸ hs)
  case mpr =>
    intro hs
    rcases h with h | ⟨h, hi⟩
    case inl => exact .inl ((Time.formatUtc_lt_iff hs).mp h)
    case inr => exact .inr ⟨h, hi.lt_of_ne fun he => hn (Text.utf8_injective he)⟩

-- Payloads with different ids in the order of their columns are in the order of time just if no two
-- of them split a second.
theorem pairwise_earlier_iff {ps : List EventPayload}
    (hs : ps.Pairwise fun p q => p.columns.timeColumns ≤ q.columns.timeColumns)
    (hn : (ps.map (·.eventId)).Nodup) : ps.Pairwise Earlier ↔
    ∀ p ∈ ps, ∀ q ∈ ps, ¬Civil.SplitsSecond p.eventTimestamp q.eventTimestamp := by
  have he : ps.Pairwise Earlier ↔
      ps.Pairwise fun p q => ¬Civil.SplitsSecond p.eventTimestamp q.eventTimestamp := by
    have h := hs.and (List.pairwise_map.mp hn)
    constructor
    case mp  => exact fun hp => h.imp₂ (fun _ _ h he => (earlier_iff h.1 h.2).mp he) hp
    case mpr => exact fun hp => h.imp₂ (fun _ _ h he => (earlier_iff h.1 h.2).mpr he) hp
  have hm : (ps.map (·.eventTimestamp)).Pairwise (¬Civil.SplitsSecond · ·) ↔ _ :=
    Civil.pairwise_not_splitsSecond
  rw [List.pairwise_map] at hm
  rw [he, hm]
  simp only [List.forall_mem_map]

end EventPayload
