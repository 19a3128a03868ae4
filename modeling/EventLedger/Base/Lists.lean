import Mathlib.Data.List.Forall2
import Mathlib.Data.List.Nodup
import Mathlib.Data.List.Perm.Basic
import Mathlib.Data.Set.List

namespace List

variable {α β : Type} {R : α → β → Prop}

section Lookup

variable [BEq α] [LawfulBEq α] {l : List (α × β)} {a : α} {b : β} {p : α × β}

theorem mem_of_lookup (h : l.lookup a = some b) : (a, b) ∈ l := by
  have ⟨l₁, l₂, hl, _⟩ := lookup_eq_some_iff.mp h
  simp [hl]

theorem lookup_of_mem (hn : (l.map Prod.fst).Nodup) (h : p ∈ l) : l.lookup p.1 = some p.2 := by
  have ⟨l₁, l₂, hl⟩ := append_of_mem h
  refine lookup_eq_some_iff.mpr ⟨l₁, l₂, hl, fun q hq => ?_⟩
  subst hl
  simp only [map_append, map_cons, nodup_append, mem_map] at hn
  exact bne_iff_ne.mpr <| (hn.2.2 q.1 ⟨q, hq, rfl⟩ p.1 (by simp) ·.symm)

end Lookup

theorem exists_map_eq {f : α → β} {l : List β} (h : ∀ b ∈ l, ∃ a, f a = b) :
    ∃ as : List α, as.map f = l := by
  have hl : l ∈ Set.range (List.map f) := by
    rw [Set.range_list_map]
    exact h
  exact hl

-- An arrangement of an image is the image of an arrangement.
theorem exists_perm_map_eq {f : α → β} {as : List α} {bs : List β} (h : bs.Perm (as.map f)) :
    ∃ as' : List α, as'.Perm as ∧ as'.map f = bs := by
  have hc : Relation.Comp Perm (Forall₂ fun b a => b = f a) bs as :=
    ⟨_, h, forall₂_map_left_iff.mpr (forall₂_same.mpr fun _ _ => rfl)⟩
  rw [← forall₂_comp_perm_eq_perm_comp_forall₂] at hc
  obtain ⟨as', hf, hp⟩ := hc
  refine ⟨as', hp, Eq.symm ?_⟩
  rw [← forall₂_eq_eq_eq, forall₂_map_right_iff]
  exact hf

variable {as : List α} {bs : List β}

theorem exists_mem_of_forall₂ {b : β} (h : Forall₂ R as bs) (hb : b ∈ bs) : ∃ a ∈ as, R a b := by
  have ⟨i, hi, he⟩ := mem_iff_getElem.mp hb
  have ⟨hl, hr⟩ := forall₂_iff_get.mp h
  exact ⟨as.get ⟨i, hl ▸ hi⟩, get_mem .., he ▸ hr i (hl ▸ hi) hi⟩

theorem countP_of_forall₂ {f : α → Bool} {g : β → Bool} (h : Forall₂ R as bs)
    (he : ∀ a b, R a b → f a = g b) : as.countP f = bs.countP g := by
  induction h
  case nil => rfl
  case cons hr _ hi => rw [countP_cons, countP_cons, hi, he _ _ hr]

variable {p q : α → Bool} {l : List α}

theorem countP_lt_countP {a : α} (h : ∀ x ∈ l, p x → q x) (ha : a ∈ l) (hp : p a = false)
    (hq : q a) : l.countP p < l.countP q := by
  obtain ⟨before, after, rfl⟩ := append_of_mem ha
  have hb := countP_mono_left fun x hx => h x (mem_append_left _ hx)
  have hc := countP_mono_left fun x hx =>
    h x (mem_append_right _ (mem_cons_of_mem _ hx))
  simp only [countP_append, countP_cons, hp, hq, Bool.false_eq_true, if_false, if_true]
  omega

-- A list in which what passes a test comes first.
theorem filter_append_filter_not (h : l.Pairwise fun a b => p b → p a) :
    l.filter p ++ l.filter (!p ·) = l := by
  induction l
  case nil => rfl
  case cons a l hi =>
    rw [pairwise_cons] at h
    cases hp : p a
    case true => simp [hp, hi h.2]
    case false =>
      have hn : ∀ b ∈ l, p b = false := fun b hb => by
        by_contra hc
        simp [h.1 b hb (by simpa using hc)] at hp
      have hf : l.filter p = [] := by simpa [filter_eq_nil_iff] using hn
      have ha : l.filter (!p ·) = l := by simpa [filter_eq_self] using hn
      simp [hp, hf, ha]

end List
