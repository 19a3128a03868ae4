import EventLedger.Base.Table

-- A store that records what arrives under a key once: it compares what arrives later with what it
-- has recorded. A record is of type `ρ`, what arrives of type `α`, what is read back of type `β`.
structure Store (α β ε : Type) {ρ κ : Type} (key : ρ → κ) where
  keyOf : α → κ
  row : α → ρ
  row_key : ∀ a, key (row a) = keyOf a
  read : ρ → Except ε β
  same : β → α → Bool
  refuses : Table ρ key → α → Option ε
  conflict : α → ε

namespace Store

variable {α β ε ρ κ : Type} [DecidableEq κ] {key : ρ → κ}

-- What recording `a` does: its answer, and the table that it leaves.
inductive Put (s : Store α β ε key) (t : Table ρ key) (a : α) :
    Except ε (β × Bool) → Table ρ key → Prop
  | replayed {r b} : t.find? (s.keyOf a) = some r → s.read r = .ok b → s.same b a →
    Put s t a (.ok (b, false)) t
  | conflicting {r b} : t.find? (s.keyOf a) = some r → s.read r = .ok b → ¬s.same b a →
    Put s t a (.error (s.conflict a)) t
  | stale {r e} : t.find? (s.keyOf a) = some r → s.read r = .error e →
    Put s t a (.error e) t
  | refused {e} : t.find? (s.keyOf a) = none → s.refuses t a = some e →
    Put s t a (.error e) t
  | inserted {u b} : t.find? (s.keyOf a) = none → s.refuses t a = none →
    u.rows = t.rows ++ [s.row a] → s.read (s.row a) = .ok b → Put s t a (.ok (b, true)) u
  | unread {u e} : t.find? (s.keyOf a) = none → s.refuses t a = none →
    u.rows = t.rows ++ [s.row a] → s.read (s.row a) = .error e → Put s t a (.error e) u

namespace Put

variable {s : Store α β ε key} {t u : Table ρ key} {a : α} {x : Except ε (β × Bool)}

-- The table stays, or the row of what arrived is appended to it.
theorem rows_cases (h : s.Put t a x u) : u = t ∨
    (t.find? (s.keyOf a) = none ∧ s.refuses t a = none ∧ u.rows = t.rows ++ [s.row a]) := by
  cases h
  case inserted hf hg _ hu => exact .inr ⟨hf, hg, hu⟩
  case unread hf hg _ hu => exact .inr ⟨hf, hg, hu⟩
  all_goals exact .inl rfl

theorem grows (h : s.Put t a x u) : t.Extends u := by
  cases h.rows_cases
  case inl h => exact h ▸ .refl t
  case inr h => exact ⟨[s.row a], h.2.2.symm⟩

theorem eq_of_find? {r : ρ} (h : s.Put t a x u) (hf : t.find? (s.keyOf a) = some r) : u = t := by
  cases h.rows_cases
  case inl h => exact h
  case inr h => simp [h.1] at hf

theorem find?_of_ok {b : β} {c : Bool} (h : s.Put t a (.ok (b, c)) u) :
    ∃ r, u.find? (s.keyOf a) = some r ∧ s.read r = .ok b ∧ (c = false → s.same b a) ∧
    (c = true → r = s.row a) := by
  cases h
  case replayed r hf hr hs => exact ⟨r, hf, hr, fun _ => hs, by simp⟩
  case inserted hf hg hr hu =>
    refine ⟨s.row a, Table.find?_eq_some.mpr ⟨?_, s.row_key a⟩, hr, by simp, fun _ => rfl⟩
    simp [hu]

-- An arrival that is the same as what the store has recorded is answered by the record.
theorem of_same {r : ρ} {b : β} (h : s.Put t a x u) (hf : t.find? (s.keyOf a) = some r)
    (hr : s.read r = .ok b) (hs : s.same b a) : x = .ok (b, false) ∧ u = t := by
  cases h <;> simp_all

theorem rows_of_fresh (h : s.Put t a x u) (hf : t.find? (s.keyOf a) = none)
    (hg : s.refuses t a = none) : u.rows = t.rows ++ [s.row a] := by
  cases h <;> simp_all

theorem of_fresh {b : β} (h : s.Put t a x u) (hf : t.find? (s.keyOf a) = none)
    (hg : s.refuses t a = none) (hr : s.read (s.row a) = .ok b) :
    x = .ok (b, true) ∧ u.rows = t.rows ++ [s.row a] := by
  cases h <;> simp_all

-- An error leaves the table as it is, unless the row has been appended and cannot be read back.
theorem atomic_iff (h : s.Put t a x u) : (∀ e, x = .error e → u = t) ↔
    (∃ r, t.find? (s.keyOf a) = some r) ∨ (∃ e, s.refuses t a = some e) ∨
      ∃ b, s.read (s.row a) = .ok b := by
  cases h
  case unread e hf hg hr hu =>
    refine iff_of_false (fun h => ?_) (by simp [hf, hg, hr])
    have hn := congrArg (·.rows.length) (h e rfl)
    simp [hu] at hn
  case inserted b hf hg hr hu => exact iff_of_true (by simp) (.inr (.inr ⟨b, hr⟩))
  case refused e hf hg => exact iff_of_true (fun _ _ => rfl) (.inr (.inl ⟨e, hg⟩))
  case replayed r _ hf hr hs => exact iff_of_true (fun _ _ => rfl) (.inl ⟨r, hf⟩)
  case conflicting r _ hf hr hs => exact iff_of_true (fun _ _ => rfl) (.inl ⟨r, hf⟩)
  case stale r _ hf hr => exact iff_of_true (fun _ _ => rfl) (.inl ⟨r, hf⟩)

-- What has been recorded is recognised in every table that extends the one it was recorded in.
theorem recognised {s' : Store α β ε key} {v w : Table ρ key} {y : Except ε (β × Bool)} {b : β}
    {c : Bool} (h : s.Put t a (.ok (b, c)) u) (he : u.Extends v) (hp : s'.Put v a y w)
    (hk : s'.keyOf a = s.keyOf a) (hr : s'.read = s.read) (hs : s'.same b a) :
    y = .ok (b, false) ∧ w = v := by
  obtain ⟨r, hf, hb, _⟩ := h.find?_of_ok
  exact hp.of_same (hk ▸ he.find? hf) (hr ▸ hb) hs

end Put

end Store
