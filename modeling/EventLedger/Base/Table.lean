import EventLedger.Base.Lists
import Mathlib.Data.List.Basic
import Mathlib.Data.List.Nodup
import Mathlib.Data.List.Sort
import Mathlib.Data.List.Lex

-- The rows of a table with a primary key, in the order of their insertion.
structure Table (ρ : Type) {κ : Type} (key : ρ → κ) where
  rows : List ρ
  nodup : (rows.map key).Nodup

-- The order in which a query without ORDER BY returns its rows is not specified.
structure RowOrder (ρ : Type) where
  arrange : List ρ → List ρ
  perm : ∀ rows, (arrange rows).Perm rows

namespace RowOrder

variable {ρ : Type}

def inserted : RowOrder ρ where
  arrange := id
  perm := .refl

instance : Inhabited (RowOrder ρ) where
  default := inserted

def reversed : RowOrder ρ where
  arrange := List.reverse
  perm := List.reverse_perm

theorem mem_arrange {o : RowOrder ρ} {rows : List ρ} {r : ρ} : r ∈ o.arrange rows ↔ r ∈ rows :=
  (o.perm rows).mem_iff

end RowOrder

namespace Table

variable {ρ κ : Type} {key : ρ → κ}

def empty : Table ρ key where
  rows := []
  nodup := .nil

def select (t : Table ρ key) (o : RowOrder ρ) (p : ρ → Bool) : List ρ :=
  o.arrange (t.rows.filter p)

-- The rows of a query in the order of the bytes of their columns.
def orderBy (columns : ρ → List (List ℕ)) (rows : List ρ) : List ρ :=
  rows.insertionSort fun r s => columns r ≤ columns s

@[ext]
theorem ext {t u : Table ρ key} (h : t.rows = u.rows) : t = u := by
  cases t; cases u; simp_all

theorem mem_select {t : Table ρ key} {o : RowOrder ρ} {p : ρ → Bool} {r : ρ} :
    r ∈ t.select o p ↔ r ∈ t.rows ∧ p r := by
  rw [select, RowOrder.mem_arrange, List.mem_filter]

theorem select_nodup {t : Table ρ key} {o : RowOrder ρ} {p : ρ → Bool} :
    ((t.select o p).map key).Nodup :=
  ((o.perm _).map key).nodup_iff.mpr <| t.nodup.sublist (List.filter_sublist.map key)

-- Every arrangement of the selected rows is that of some order.
theorem exists_select (t : Table ρ key) {p : ρ → Bool} {rows : List ρ}
    (h : rows.Perm (t.rows.filter p)) : ∃ o : RowOrder ρ, t.select o p = rows := by
  classical
  let o : RowOrder ρ :=
    { arrange := fun l => if l = t.rows.filter p then rows else l
      perm := fun l => by
        split
        case isTrue hl => exact hl ▸ h
        case isFalse   => exact .refl _ }
  exact ⟨o, if_pos rfl⟩

-- What every later state of a table that only grows has of an earlier one.
def Extends (t u : Table ρ key) : Prop :=
  t.rows <+: u.rows

theorem Extends.refl (t : Table ρ key) : t.Extends t :=
  List.prefix_refl _

theorem Extends.trans {t u v : Table ρ key} (h₁ : t.Extends u) (h₂ : u.Extends v) : t.Extends v :=
  List.IsPrefix.trans h₁ h₂

theorem Extends.mem {t u : Table ρ key} {r : ρ} (h : t.Extends u) (hr : r ∈ t.rows) : r ∈ u.rows :=
  List.IsPrefix.mem hr h

variable {columns : ρ → List (List ℕ)}

theorem orderBy_perm (rows : List ρ) : (orderBy columns rows).Perm rows :=
  List.perm_insertionSort _ _

theorem orderBy_sorted (rows : List ρ) :
    (orderBy columns rows).Pairwise fun r s => columns r ≤ columns s := by
  have : Std.Total fun r s : ρ => columns r ≤ columns s := ⟨fun _ _ => le_total _ _⟩
  have : IsTrans ρ fun r s => columns r ≤ columns s := ⟨fun _ _ _ => le_trans⟩
  exact List.pairwise_insertionSort _ _

-- Rows with different columns have one order.
theorem orderBy_unique {rows rows' : List ρ} (h : rows.Perm rows')
    (hi : ∀ r ∈ rows, ∀ s ∈ rows, columns r = columns s → r = s) :
    orderBy columns rows = orderBy columns rows' := by
  refine List.Perm.eq_of_pairwise (fun a b ha hb hab hba => ?_)
    (orderBy_sorted _) (orderBy_sorted _)
    ((orderBy_perm _).trans (h.trans (orderBy_perm _).symm))
  have ha := (orderBy_perm _).mem_iff.mp ha
  have hb := h.mem_iff.mpr ((orderBy_perm _).mem_iff.mp hb)
  exact hi a ha b hb (le_antisymm hab hba)

theorem orderBy_map {σ : Type} {columns' : σ → List (List ℕ)} (f : ρ → σ)
    (h : ∀ r, columns' (f r) = columns r) (rows : List ρ) :
    (orderBy columns rows).map f = orderBy columns' (rows.map f) :=
  List.map_insertionSort _ _ f rows fun r _ s _ => by rw [h, h]

variable [DecidableEq κ]

def find? (t : Table ρ key) (k : κ) : Option ρ :=
  t.rows.find? (key · = k)

-- Insertion fails on a key that is present.
def insert (t : Table ρ key) (r : ρ) : Option (Table ρ key) :=
  if h : key r ∈ t.rows.map key then
    none
  else
    some {
      rows := t.rows ++ [r]
      nodup := by
        rw [List.map_append]
        exact List.nodup_append.mpr ⟨t.nodup, by simp, fun a ha b hb hab =>
          h (List.mem_singleton.mp hb ▸ hab ▸ ha)⟩
    }

theorem find?_eq_some {t : Table ρ key} {k : κ} {r : ρ} :
    t.find? k = some r ↔ r ∈ t.rows ∧ key r = k where
  mp h := ⟨List.mem_of_find?_eq_some h, by simpa using List.find?_some h⟩
  mpr h := by
    have ⟨hr, hk⟩ := h
    cases hf : t.find? k
    case none => simpa [hk] using List.find?_eq_none.mp hf r hr
    case some s =>
      have hs : key s = k := by simpa using List.find?_some hf
      exact congrArg some <|
        List.inj_on_of_nodup_map t.nodup (List.mem_of_find?_eq_some hf) hr (hs.trans hk.symm)

theorem find?_eq_none {t : Table ρ key} {k : κ} : t.find? k = none ↔ ∀ r ∈ t.rows, key r ≠ k := by
  simp [find?]

-- A key has one row or none.
theorem countP_key {t : Table ρ key} {k : κ} :
    t.rows.countP (key · = k) = if (t.find? k).isSome then 1 else 0 := by
  have hc : t.rows.countP (key · = k) = (t.rows.map key).count k := by
    rw [List.count, List.countP_map]
    exact List.countP_congr fun r _ => by simp
  rw [hc, t.nodup.count]
  refine if_congr ?_ rfl rfl
  rw [Option.isSome_iff_exists, List.mem_map]
  simp only [find?_eq_some]

theorem insert_of_find? {t : Table ρ key} {r : ρ} (h : t.find? (key r) = none) :
    ∃ u, t.insert r = some u ∧ u.rows = t.rows ++ [r] := by
  have hk : key r ∉ t.rows.map key := by simpa using find?_eq_none.mp h
  exact ⟨_, dif_neg hk, rfl⟩

theorem find?_append {t u : Table ρ key} {r : ρ} (h : u.rows = t.rows ++ [r]) (k : κ) :
    u.find? k = (t.find? k).or (if key r = k then some r else none) := by
  rw [find?, h, List.find?_append, find?, List.find?_singleton]
  simp only [decide_eq_true_eq]

theorem Extends.find? {t u : Table ρ key} {k : κ} {r : ρ} (h : t.Extends u)
    (hf : t.find? k = some r) : u.find? k = some r := by
  have ⟨hr, hk⟩ := find?_eq_some.mp hf
  exact find?_eq_some.mpr ⟨h.mem hr, hk⟩

end Table
