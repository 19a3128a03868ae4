import EventLedger.Base.Float64
import EventLedger.Base.Lists
import Mathlib.Data.List.Sort
import Mathlib.Data.List.Perm.Subperm

-- Parsed JSON: the numbers keep the distinction between integers and floats, an object is the
-- sequence of its members in insertion order.
inductive Json
  | null
  | bool (b : Bool)
  | int (i : ℤ)
  | float (x : Float64)
  | str (s : Text)
  | arr (xs : List Json)
  | obj (fs : List (Text × Json))

namespace Json

-- The values that are not containers, up to the equality of Python: the numbers compare across
-- their types, and `bool` is one of these.
inductive Atom
  | null
  | fin (v : ℚ)
  | inf (neg : Bool)
  | nan
  | str (s : Text)
deriving DecidableEq

def atom : Json → Option Atom
  | null                    => some .null
  | bool b                  => some <| .fin (if b then 1 else 0)
  | int i                   => some <| .fin i
  | float .nan              => some .nan
  | float (.inf neg)        => some <| .inf neg
  | float (.finite neg mag) => some <| .fin (if neg then -mag.value else mag.value)
  | str s                   => some <| .str s
  | _                       => none

-- Induction over the containers; what is not a container has an atom.
@[elab_as_elim]
theorem container_ind {P : Json → Prop} (atom : ∀ j m, j.atom = some m → P j)
    (arr : ∀ xs, (∀ x ∈ xs, P x) → P (arr xs))
    (obj : ∀ fs, (∀ f ∈ fs, P f.2) → P (obj fs)) (j : Json) : P j := by
  refine @Json.rec P (fun xs => ∀ x ∈ xs, P x) (fun fs => ∀ f ∈ fs, P f.2) (fun f => P f.2)
    (atom _ _ rfl) (fun _ => atom _ _ rfl) (fun _ => atom _ _ rfl) (fun x => ?float)
    (fun _ => atom _ _ rfl) arr obj ?_ ?_ ?_ ?_ ?_ j
  case float => cases x <;> exact atom _ _ rfl
  case refine_1 => simp
  case refine_2 =>
    intro x xs hx hxs y hy
    cases hy
    case head   => exact hx
    case tail h => exact hxs y h
  case refine_3 => simp
  case refine_4 =>
    intro f fs hf hfs g hg
    cases hg
    case head   => exact hf
    case tail h => exact hfs g h
  case refine_5 => exact fun _ _ h => h

mutual

-- No object of the value has two members of one name.
def WF : Json → Prop
  | arr xs => WFElems xs
  | obj fs => (fs.map Prod.fst).Nodup ∧ WFMembers fs
  | _      => True

def WFElems : List Json → Prop
  | []      => True
  | x :: xs => x.WF ∧ WFElems xs

def WFMembers : List (Text × Json) → Prop
  | []           => True
  | (_, v) :: fs => v.WF ∧ WFMembers fs

end

theorem wfElems_iff {xs : List Json} : WFElems xs ↔ ∀ x ∈ xs, x.WF := by
  induction xs <;> simp_all [WFElems]

theorem wfMembers_iff {fs : List (Text × Json)} : WFMembers fs ↔ ∀ f ∈ fs, f.2.WF := by
  induction fs <;> simp_all [WFMembers]

@[simp]
theorem wf_arr {xs : List Json} : (arr xs).WF ↔ ∀ x ∈ xs, x.WF := by
  rw [WF, wfElems_iff]

@[simp]
theorem wf_obj {fs : List (Text × Json)} :
    (obj fs).WF ↔ (fs.map Prod.fst).Nodup ∧ ∀ f ∈ fs, f.2.WF := by
  rw [WF, wfMembers_iff]

mutual

-- Equality of parsed JSON inside a container. The parser has one NaN object, which a container
-- finds equal to itself by identity.
def pyEq : Json → Json → Bool
  | arr xs, arr ys => pyEqElems xs ys
  | obj fs, obj gs => fs.length = gs.length && pyEqMembers fs gs
  | a,      b      =>
    match a.atom, b.atom with
    | some m, some n => m = n
    | _,      _      => false

def pyEqElems : List Json → List Json → Bool
  | [],      []      => true
  | x :: xs, y :: ys => pyEq x y && pyEqElems xs ys
  | _,       _       => false

def pyEqMembers : List (Text × Json) → List (Text × Json) → Bool
  | [],           _  => true
  | (k, v) :: fs, gs =>
    (match gs.lookup k with
     | some w => pyEq v w
     | none   => false) && pyEqMembers fs gs

end

theorem pyEqElems_iff {xs ys : List Json} :
    pyEqElems xs ys ↔ List.Forall₂ (fun x y => pyEq x y) xs ys := by
  induction xs generalizing ys <;> cases ys <;> simp_all [pyEqElems]

theorem pyEqMembers_iff {fs gs : List (Text × Json)} :
    pyEqMembers fs gs ↔ ∀ f ∈ fs, ∃ w, gs.lookup f.1 = some w ∧ pyEq f.2 w := by
  induction fs
  case nil => simp [pyEqMembers]
  case cons f fs hi =>
    simp only [pyEqMembers, Bool.and_eq_true, hi, List.forall_mem_cons]
    refine and_congr_left fun _ => ?_
    cases gs.lookup f.1 <;> simp

theorem pyEq_atom_left {a b : Json} {m : Atom} (h : a.atom = some m) :
    pyEq a b ↔ b.atom = some m := by
  have : pyEq a b =
      match a.atom, b.atom with
      | some m, some n => decide (m = n)
      | _,      _      => false := by
    cases a <;> first | rfl | (simp [atom] at h)
  rw [this, h]
  cases b.atom <;> simp [eq_comm]

theorem pyEq_arr_left {xs : List Json} {b : Json} :
    pyEq (arr xs) b ↔ ∃ ys, b = arr ys ∧ List.Forall₂ (fun x y => pyEq x y) xs ys := by
  simp only [← pyEqElems_iff]
  cases b <;> simp [pyEq, atom]

theorem pyEq_obj_left {fs : List (Text × Json)} {b : Json} :
    pyEq (obj fs) b ↔ ∃ gs, b = obj gs ∧
      fs.length = gs.length ∧ ∀ f ∈ fs, ∃ w, gs.lookup f.1 = some w ∧ pyEq f.2 w := by
  simp only [← pyEqMembers_iff]
  cases b <;> simp [pyEq, atom]

theorem pyEq_atom_right {a b : Json} {m : Atom} (h : b.atom = some m) :
    pyEq a b ↔ a.atom = some m := by
  induction a using container_ind
  case atom n ha => rw [pyEq_atom_left ha, h, ha, eq_comm]
  case arr =>
    refine iff_of_false (fun hp => ?_) (by simp [atom])
    have ⟨_, hb, _⟩ := pyEq_arr_left.mp hp
    simp [hb, atom] at h
  case obj =>
    refine iff_of_false (fun hp => ?_) (by simp [atom])
    have ⟨_, hb, _⟩ := pyEq_obj_left.mp hp
    simp [hb, atom] at h

theorem pyEq_refl {j : Json} (h : j.WF) : pyEq j j := by
  induction j using container_ind
  case atom ha => exact pyEq_atom_left ha |>.mpr ha
  case arr xs hi =>
    refine pyEq_arr_left.mpr ⟨xs, rfl, List.forall₂_same.mpr fun x hx => ?_⟩
    exact hi x hx (wf_arr.mp h x hx)
  case obj fs hi =>
    have ⟨hn, hw⟩ := wf_obj.mp h
    refine pyEq_obj_left.mpr ⟨fs, rfl, rfl, fun f hf => ?_⟩
    exact ⟨f.2, List.lookup_of_mem hn hf, hi f hf (hw f hf)⟩

theorem pyEq_symm {a b : Json} (ha : a.WF) (hb : b.WF) (h : pyEq a b) : pyEq b a := by
  induction a using container_ind generalizing b
  case atom hm => exact pyEq_atom_right hm |>.mpr <| pyEq_atom_left hm |>.mp h
  case arr xs hi =>
    obtain ⟨ys, rfl, hf⟩ := pyEq_arr_left.mp h
    refine pyEq_arr_left.mpr ⟨xs, rfl, ?_⟩
    clear h
    induction hf
    case nil => exact .nil
    case cons hxy _ ht =>
      simp only [wf_arr, List.forall_mem_cons] at ha hb hi
      exact .cons (hi.1 ha.1 hb.1 hxy) (ht hi.2 (wf_arr.mpr ha.2) (wf_arr.mpr hb.2))
  case obj fs hi =>
    obtain ⟨gs, rfl, hl, hf⟩ := pyEq_obj_left.mp h
    have ⟨hn, hw⟩ := wf_obj.mp ha
    have ⟨hn', hw'⟩ := wf_obj.mp hb
    refine pyEq_obj_left.mpr ⟨fs, rfl, hl.symm, fun g hg => ?_⟩
    -- Two duplicate-free name lists of one length, one inside the other, have the same names.
    have hsub : fs.map Prod.fst ⊆ gs.map Prod.fst := by
      intro k hk
      have ⟨f, hm, he⟩ := List.mem_map.mp hk
      have ⟨w, hlw, _⟩ := hf f hm
      exact he ▸ List.mem_map.mpr ⟨_, List.mem_of_lookup hlw, rfl⟩
    have hperm := List.subperm_of_subset hn hsub |>.perm_of_length_le (by simp [hl])
    have ⟨f, hm, he⟩ := List.mem_map.mp <| hperm.mem_iff.mpr <| List.mem_map.mpr ⟨g, hg, rfl⟩
    have ⟨w, hlw, hfw⟩ := hf f hm
    have hgw : w = g.2 := by
      rw [he, List.lookup_of_mem hn' hg] at hlw
      exact (Option.some.inj hlw).symm
    subst hgw
    exact ⟨f.2, he ▸ List.lookup_of_mem hn hm, hi f hm (hw f hm) (hw' g hg) hfw⟩

theorem pyEq_trans {a b c : Json} (h₁ : pyEq a b) (h₂ : pyEq b c) : pyEq a c := by
  induction a using container_ind generalizing b c
  case atom hm =>
    exact pyEq_atom_left hm |>.mpr <| pyEq_atom_left (pyEq_atom_left hm |>.mp h₁) |>.mp h₂
  case arr xs hi =>
    obtain ⟨ys, rfl, hf⟩ := pyEq_arr_left.mp h₁
    obtain ⟨zs, rfl, hg⟩ := pyEq_arr_left.mp h₂
    refine pyEq_arr_left.mpr ⟨zs, rfl, ?_⟩
    clear h₁ h₂
    induction hf generalizing zs
    case nil => cases hg; exact .nil
    case cons hxy _ ht =>
      cases hg
      case cons hyz ht' =>
        rw [List.forall_mem_cons] at hi
        exact .cons (hi.1 hxy hyz) (ht hi.2 _ ht')
  case obj fs hi =>
    obtain ⟨gs, rfl, hl, hf⟩ := pyEq_obj_left.mp h₁
    obtain ⟨hs, rfl, hl', hg⟩ := pyEq_obj_left.mp h₂
    refine pyEq_obj_left.mpr ⟨hs, rfl, hl.trans hl', fun f hm => ?_⟩
    have ⟨w, hw, hfw⟩ := hf f hm
    have ⟨z, hz, hwz⟩ := hg (f.1, w) (List.mem_of_lookup hw)
    exact ⟨z, hz, hi f hm hfw hwz⟩

-- Names are ordered by their code points.
def NameLE (f g : Text × Json) : Prop :=
  f.1.map Char.toNat ≤ g.1.map Char.toNat

instance : DecidableRel NameLE :=
  fun _ _ => inferInstanceAs (Decidable (_ ≤ _))

instance : Std.Total NameLE where
  total f g := le_total (f.1.map Char.toNat) (g.1.map Char.toNat)

instance : IsTrans (Text × Json) NameLE where
  trans _ _ _ := le_trans

mutual

-- The members of every object brought into the order of their names.
def sorted : Json → Json
  | arr xs => arr (sortedElems xs)
  | obj fs => obj ((sortedMembers fs).insertionSort NameLE)
  | j      => j

def sortedElems : List Json → List Json
  | []      => []
  | x :: xs => x.sorted :: sortedElems xs

def sortedMembers : List (Text × Json) → List (Text × Json)
  | []           => []
  | (k, v) :: fs => (k, v.sorted) :: sortedMembers fs

end

theorem sortedElems_eq (xs : List Json) : sortedElems xs = xs.map sorted := by
  induction xs <;> simp_all [sortedElems]

theorem sortedMembers_eq (fs : List (Text × Json)) :
    sortedMembers fs = fs.map fun f => (f.1, f.2.sorted) := by
  induction fs <;> simp_all [sortedMembers]

theorem sorted_of_atom {j : Json} {m : Atom} (h : j.atom = some m) : j.sorted = j := by
  cases j <;> first | rfl | (simp [atom] at h)

@[simp]
theorem sorted_arr (xs : List Json) : (arr xs).sorted = arr (xs.map sorted) := by
  rw [sorted, sortedElems_eq]

@[simp]
theorem sorted_obj (fs : List (Text × Json)) : (obj fs).sorted =
    obj ((fs.map fun f => (f.1, f.2.sorted)).insertionSort NameLE) := by
  rw [sorted, sortedMembers_eq]

theorem sorted_names_perm (fs : List (Text × Json)) :
    ((fs.map fun f => (f.1, f.2.sorted)).insertionSort NameLE).map Prod.fst |>.Perm
      (fs.map Prod.fst) := by
  refine (List.perm_insertionSort _ _ |>.map _).trans ?_
  rw [List.map_map]
  exact .refl _

theorem sorted_wf {j : Json} (h : j.WF) : j.sorted.WF := by
  induction j using container_ind
  case atom hm => rwa [sorted_of_atom hm]
  case arr xs hi =>
    rw [wf_arr] at h
    rw [sorted_arr, wf_arr, List.forall_mem_map]
    exact fun x hx => hi x hx (h x hx)
  case obj fs hi =>
    have ⟨hn, hw⟩ := wf_obj.mp h
    rw [sorted_obj, wf_obj]
    refine ⟨(sorted_names_perm fs).nodup_iff.mpr hn, fun f hf => ?_⟩
    have ⟨g, hg, he⟩ := List.mem_map.mp <| List.mem_insertionSort _ |>.mp hf
    exact he ▸ hi g hg (hw g hg)

theorem pyEq_sorted {j : Json} (h : j.WF) : pyEq j.sorted j := by
  induction j using container_ind
  case atom hm => rw [sorted_of_atom hm]; exact pyEq_refl h
  case arr xs hi =>
    rw [wf_arr] at h
    refine pyEq_arr_left.mpr ⟨xs, rfl, ?_⟩
    rw [sortedElems_eq, List.forall₂_map_left_iff, List.forall₂_same]
    exact fun x hx => hi x hx (h x hx)
  case obj fs hi =>
    have ⟨hn, hw⟩ := wf_obj.mp h
    rw [sorted_obj]
    refine pyEq_obj_left.mpr ⟨fs, rfl, by simp, fun f hf => ?_⟩
    have ⟨g, hg, he⟩ := List.mem_map.mp <| List.mem_insertionSort _ |>.mp hf
    subst he
    exact ⟨g.2, List.lookup_of_mem hn hg, hi g hg (hw g hg)⟩

mutual

-- Whether the value is standard JSON, which has no infinity and no NaN.
def isStandard : Json → Bool
  | float x => x.isFinite
  | arr xs  => isStandardElems xs
  | obj fs  => isStandardMembers fs
  | _       => true

def isStandardElems : List Json → Bool
  | []      => true
  | x :: xs => x.isStandard && isStandardElems xs

def isStandardMembers : List (Text × Json) → Bool
  | []           => true
  | (_, v) :: fs => v.isStandard && isStandardMembers fs

end

mutual

-- The number of values on the longest way into the value, itself among them.
def height : Json → ℕ
  | arr xs => heightElems xs + 1
  | obj fs => heightMembers fs + 1
  | _      => 1

def heightElems : List Json → ℕ
  | []      => 0
  | x :: xs => max x.height (heightElems xs)

def heightMembers : List (Text × Json) → ℕ
  | []           => 0
  | (_, v) :: fs => max v.height (heightMembers fs)

end

mutual

-- The value with `null` for every float that standard JSON has no text for.
def nullNonFinite : Json → Json
  | float x => if x.isFinite then float x else null
  | arr xs  => arr (nullNonFiniteElems xs)
  | obj fs  => obj (nullNonFiniteMembers fs)
  | j       => j

def nullNonFiniteElems : List Json → List Json
  | []      => []
  | x :: xs => x.nullNonFinite :: nullNonFiniteElems xs

def nullNonFiniteMembers : List (Text × Json) → List (Text × Json)
  | []           => []
  | (k, v) :: fs => (k, v.nullNonFinite) :: nullNonFiniteMembers fs

end

@[simp]
theorem isStandard_arr {xs : List Json} : (arr xs).isStandard ↔ ∀ x ∈ xs, x.isStandard := by
  have : isStandardElems xs ↔ ∀ x ∈ xs, x.isStandard := by
    induction xs <;> simp_all [isStandardElems]
  rw [isStandard, this]

@[simp]
theorem isStandard_obj {fs : List (Text × Json)} :
    (obj fs).isStandard ↔ ∀ f ∈ fs, f.2.isStandard := by
  have : isStandardMembers fs ↔ ∀ f ∈ fs, f.2.isStandard := by
    induction fs <;> simp_all [isStandardMembers]
  rw [isStandard, this]

@[simp]
theorem nullNonFinite_arr (xs : List Json) :
    (arr xs).nullNonFinite = arr (xs.map nullNonFinite) := by
  have : nullNonFiniteElems xs = xs.map nullNonFinite := by
    induction xs <;> simp_all [nullNonFiniteElems]
  rw [nullNonFinite, this]

@[simp]
theorem nullNonFinite_obj (fs : List (Text × Json)) :
    (obj fs).nullNonFinite = obj (fs.map fun f => (f.1, f.2.nullNonFinite)) := by
  have : nullNonFiniteMembers fs = fs.map fun f => (f.1, f.2.nullNonFinite) := by
    induction fs <;> simp_all [nullNonFiniteMembers]
  rw [nullNonFinite, this]

theorem nullNonFinite_of_atom {j : Json} {m : Atom} (h : j.atom = some m) :
    j.nullNonFinite = if j.isStandard then j else null := by
  cases j
  case arr | obj => simp [atom] at h
  all_goals rfl

theorem nullNonFinite_wf {j : Json} (h : j.WF) : j.nullNonFinite.WF := by
  induction j using container_ind
  case atom hm => rw [nullNonFinite_of_atom hm]; split <;> trivial
  case arr xs hi =>
    rw [wf_arr] at h
    rw [nullNonFinite_arr, wf_arr, List.forall_mem_map]
    exact fun x hx => hi x hx (h x hx)
  case obj fs hi =>
    have ⟨hn, hw⟩ := wf_obj.mp h
    rw [nullNonFinite_obj, wf_obj, List.forall_mem_map, List.map_map]
    exact ⟨hn, fun f hf => hi f hf (hw f hf)⟩

theorem nullNonFinite_of_isStandard {j : Json} (h : j.isStandard) : j.nullNonFinite = j := by
  induction j using container_ind
  case atom hm => rw [nullNonFinite_of_atom hm, if_pos h]
  case arr xs hi =>
    rw [isStandard_arr] at h
    rw [nullNonFinite_arr, List.map_congr_left fun x hx => hi x hx (h x hx), List.map_id']
  case obj fs hi =>
    rw [isStandard_obj] at h
    have he : ∀ f ∈ fs, (f.1, f.2.nullNonFinite) = f := fun f hf => Prod.ext rfl (hi f hf (h f hf))
    rw [nullNonFinite_obj, List.map_congr_left he, List.map_id']

def Atom.isStandard : Atom → Bool
  | inf _ => false
  | nan   => false
  | _     => true

theorem isStandard_of_atom {j : Json} {m : Atom} (h : j.atom = some m) :
    j.isStandard = m.isStandard := by
  cases j
  case float x => cases x <;> simp only [atom, Option.some.injEq] at h <;> subst h <;> rfl
  case arr | obj => simp [atom] at h
  all_goals
    simp only [atom, Option.some.injEq] at h
    subst h
    rfl

-- Python tells a value with such floats from one without them.
theorem isStandard_of_pyEq {a b : Json} (ha : a.WF) (hb : b.WF) (h : pyEq a b)
    (hs : a.isStandard) : b.isStandard := by
  replace h := pyEq_symm ha hb h
  induction b using container_ind generalizing a
  case atom hm => rwa [isStandard_of_atom hm, ← isStandard_of_atom (pyEq_atom_left hm |>.mp h)]
  case arr ys hi =>
    obtain ⟨xs, rfl, hf⟩ := pyEq_arr_left.mp h
    rw [isStandard_arr] at hs ⊢
    rw [wf_arr] at ha hb
    clear h
    induction hf
    case nil => simp
    case cons hyx _ ht =>
      rw [List.forall_mem_cons] at ha hb hs hi ⊢
      exact ⟨hi.1 ha.1 hb.1 hs.1 hyx, ht hi.2 hb.2 ha.2 hs.2⟩
  case obj gs hi =>
    obtain ⟨fs, rfl, _, hf⟩ := pyEq_obj_left.mp h
    have ⟨_, hwf⟩ := wf_obj.mp ha
    have ⟨_, hwg⟩ := wf_obj.mp hb
    rw [isStandard_obj] at hs ⊢
    intro g hg
    have ⟨w, hl, hp⟩ := hf g hg
    have hm := List.mem_of_lookup hl
    exact hi g hg (hwf _ hm) (hwg g hg) (hs _ hm) hp

theorem nullNonFinite_isStandard (j : Json) : j.nullNonFinite.isStandard := by
  induction j using container_ind
  case atom hm =>
    rw [nullNonFinite_of_atom hm]
    split
    case isTrue h => exact h
    case isFalse  => rfl
  case arr xs hi => simpa using hi
  case obj fs hi =>
    rw [nullNonFinite_obj, isStandard_obj, List.forall_mem_map]
    exact hi

end Json
