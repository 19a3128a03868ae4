import EventLedger.Base.JsonText

namespace Json

theorem setMember_names (fs : List (Text × Json)) (f : Text × Json) :
    ((setMember fs f).map Prod.fst) =
    if f.1 ∈ fs.map Prod.fst then fs.map Prod.fst else fs.map Prod.fst ++ [f.1] := by
  unfold setMember
  split
  case isTrue =>
    rw [List.map_map]
    refine List.map_congr_left fun g _ => ?_
    simp only [Function.comp_apply]
    split <;> simp_all
  case isFalse => simp

theorem mem_setMember {fs : List (Text × Json)} {f g : Text × Json} (h : g ∈ setMember fs f) :
    g ∈ fs ∨ g = f := by
  unfold setMember at h
  split at h
  case isTrue =>
    have ⟨g', hg, he⟩ := List.mem_map.mp h
    split at he
    case isTrue => exact .inr he.symm
    case isFalse => exact .inl (he ▸ hg)
  case isFalse => simpa using h

theorem dict_nodup (fs : List (Text × Json)) : ((dict fs).map Prod.fst).Nodup := by
  have : ∀ acc : List (Text × Json), (acc.map Prod.fst).Nodup →
      ((fs.foldl setMember acc).map Prod.fst).Nodup := by
    induction fs
    case nil => simp
    case cons f fs hi =>
      intro acc h
      refine hi _ ?_
      rw [setMember_names]
      split
      case isTrue => exact h
      case isFalse hf => exact List.nodup_append.mpr ⟨h, by simp, fun a ha b hb hab =>
        hf (List.mem_singleton.mp hb ▸ hab ▸ ha)⟩
  exact this [] .nil

theorem mem_dict {fs : List (Text × Json)} {g : Text × Json} (h : g ∈ dict fs) : g ∈ fs := by
  have : ∀ acc : List (Text × Json), g ∈ fs.foldl setMember acc → g ∈ acc ∨ g ∈ fs := by
    clear h
    induction fs
    case nil => simp
    case cons f fs hi =>
      intro acc hg
      rcases hi _ hg with hg | hg
      case inl =>
        rcases mem_setMember hg with hg | hg
        case inl => exact .inl hg
        case inr => exact .inr (by simp [hg])
      case inr => exact .inr (List.mem_cons_of_mem _ hg)
  simpa using this [] h

theorem number_wf {c : Prop} [Decidable c] {i : ℤ} {x : Float64} {t r : Text} {v : Json}
    (h : (if c then some (int i, t) else some (float x, t)) = some (v, r)) : v.WF := by
  split at h <;> (cases h; trivial)

theorem scanNumber_wf {t r : Text} {v : Json} (h : scanNumber t = some (v, r)) : v.WF := by
  simp only [scanNumber, Option.ite_none_left_eq_some] at h
  exact number_wf h.2

theorem scanConstant_wf {t r : Text} {v : Json} (h : scanConstant t = some (v, r)) : v.WF := by
  have ⟨(p, w), hc, hv⟩ := List.exists_of_findSome?_eq_some h
  have hw : ∀ c ∈ constants, c.2.WF := by simp [constants, WF]
  simp only [Option.ite_none_right_eq_some, Option.some.injEq, Prod.mk.injEq] at hv
  exact hv.2.1 ▸ hw _ hc

-- What the scanners read has no two members of one name.
structure ScansWF (n : ℕ) : Prop where
  value : ∀ t v r, scanValue n t = some (v, r) → v.WF
  elems : ∀ t xs r, scanElems n t = some (xs, r) → ∀ x ∈ xs, x.WF
  member : ∀ t f r, scanMember n t = some (f, r) → f.2.WF
  members : ∀ t fs r, scanMembers n t = some (fs, r) → ∀ f ∈ fs, f.2.WF

theorem scansWF (n : ℕ) : ScansWF n := by
  induction n
  case zero =>
    exact ⟨by simp [scanValue], by simp [scanElems], by simp [scanMember], by simp [scanMembers]⟩
  case succ n hi =>
    refine ⟨fun t v r h => ?value, fun t xs r h => ?elems, fun t f r h => ?member,
      fun t fs r h => ?members⟩
    case value =>
      unfold scanValue at h
      split at h
      case h_1 =>
        have ⟨_, _, hv⟩ := Option.bind_eq_some_iff.mp h
        cases hv
        trivial
      case h_2 =>
        split at h
        case isTrue => cases h; simp
        case isFalse =>
          have ⟨x, hx, h⟩ := Option.bind_eq_some_iff.mp h
          have ⟨xs, hxs, h⟩ := Option.bind_eq_some_iff.mp h
          cases h
          have hx := hi.value _ _ _ hx
          have hxs := hi.elems _ _ _ hxs
          simpa using ⟨hx, hxs⟩
      case h_3 =>
        split at h
        case isTrue => cases h; simp
        case isFalse =>
          have ⟨f, hf, h⟩ := Option.bind_eq_some_iff.mp h
          have ⟨fs, hfs, h⟩ := Option.bind_eq_some_iff.mp h
          cases h
          have hf := hi.member _ _ _ hf
          have hfs := hi.members _ _ _ hfs
          exact wf_obj.mpr ⟨dict_nodup _, fun g hg => by
            cases mem_dict hg
            case head => exact hf
            case tail hg => exact hfs g hg⟩
      case h_4 =>
        rw [Option.orElse_eq_orElse, Option.orElse_eq_or] at h
        rcases Option.or_eq_some_iff.mp h with h | ⟨_, h⟩
        case inl => exact scanNumber_wf h
        case inr => exact scanConstant_wf h
    case elems =>
      unfold scanElems at h
      split at h
      case h_1 => cases h; simp
      case h_2 =>
        have ⟨x, hx, h⟩ := Option.bind_eq_some_iff.mp h
        have ⟨xs, hxs, h⟩ := Option.bind_eq_some_iff.mp h
        cases h
        have hx := hi.value _ _ _ hx
        have hxs := hi.elems _ _ _ hxs
        simpa using ⟨hx, hxs⟩
      case h_3 => cases h
    case member =>
      unfold scanMember at h
      split at h
      case h_1 =>
        have ⟨⟨k, t⟩, hk, h⟩ := Option.bind_eq_some_iff.mp h
        simp only at h
        split at h
        case h_1 =>
          have ⟨v, hv, h⟩ := Option.bind_eq_some_iff.mp h
          cases h
          exact hi.value _ _ _ hv
        case h_2 => cases h
      case h_2 => cases h
    case members =>
      unfold scanMembers at h
      split at h
      case h_1 => cases h; simp
      case h_2 =>
        have ⟨f, hf, h⟩ := Option.bind_eq_some_iff.mp h
        have ⟨fs, hfs, h⟩ := Option.bind_eq_some_iff.mp h
        cases h
        have hf := hi.member _ _ _ hf
        have hfs := hi.members _ _ _ hfs
        intro g hg
        cases hg
        case head => exact hf
        case tail hg => exact hfs g hg
      case h_3 => cases h

theorem loads_wf {t : Text} {v : Json} (h : loads t = some v) : v.WF := by
  unfold loads at h
  split at h
  case h_1 hs =>
    split at h
    case isTrue => exact (Option.some.inj h) ▸ (scansWF _).value _ _ _ hs
    case isFalse => cases h
  case h_2 => cases h

end Json
