import EventLedger.Base.Machine

-- The states of a machine stand for states of another, and each of its steps for none or one of
-- the other's.
structure Simulation {σ α τ β : Type} (m : Machine σ α) (n : Machine τ β) where
  Represents : σ → τ → Prop
  observe : σ → α → Option β
  init : Represents m.init n.init
  step : ∀ {s a s' t}, Represents s t → m.step s a = some s' →
    ∃ t', n.runFrom t (observe s a).toList = some t' ∧ Represents s' t'

namespace Simulation

variable {σ α τ β : Type} {m : Machine σ α} {n : Machine τ β} {s s' : σ} {t : τ} {as : List α}

-- What the other machine does in a run.
def trace (x : Simulation m n) : σ → List α → List β
  | _, []      => []
  | s, a :: as =>
    (x.observe s a).toList ++ match m.step s a with
      | none    => []
      | some s' => x.trace s' as

theorem runFrom (x : Simulation m n) (hr : x.Represents s t) (h : m.runFrom s as = some s') :
    ∃ t', n.runFrom t (x.trace s as) = some t' ∧ x.Represents s' t' := by
  induction as generalizing s t
  case nil => exact ⟨t, rfl, (Option.some.inj h) ▸ hr⟩
  case cons a as hi =>
    have ⟨u, hu, h⟩ := Machine.runFrom_cons h
    have ⟨v, hv, hr⟩ := x.step hr hu
    have ⟨t', ht, hr⟩ := hi hr h
    refine ⟨t', ?_, hr⟩
    simp only [trace, hu]
    rw [Machine.runFrom_append, hv, Option.bind_some, ht]

theorem run (x : Simulation m n) (h : m.run as = some s) :
    ∃ t, n.run (x.trace m.init as) = some t ∧ x.Represents s t :=
  x.runFrom x.init h

-- What holds of every state of the other machine holds of what a state stands for.
theorem reachable (x : Simulation m n) (h : m.Reachable s) :
    ∃ t, n.Reachable t ∧ x.Represents s t := by
  have ⟨as, h⟩ := h
  have ⟨t, ht, hr⟩ := x.run h
  exact ⟨t, ⟨_, ht⟩, hr⟩

end Simulation
