import Mathlib.Data.List.Basic

-- A system that starts in one state and takes an action in a state in at most one way.
structure Machine (σ α : Type) where
  init : σ
  step : σ → α → Option σ

namespace Machine

variable {σ α : Type} {m : Machine σ α} {s s' : σ} {a : α} {as bs : List α}

def runFrom (m : Machine σ α) : σ → List α → Option σ
  | s, []      => some s
  | s, a :: as => (m.step s a).bind fun s' => m.runFrom s' as

def run (m : Machine σ α) (as : List α) : Option σ :=
  m.runFrom m.init as

def Reachable (m : Machine σ α) (s : σ) : Prop :=
  ∃ as, m.run as = some s

theorem runFrom_cons (h : m.runFrom s (a :: as) = some s') :
    ∃ t, m.step s a = some t ∧ m.runFrom t as = some s' :=
  Option.bind_eq_some_iff.mp h

theorem runFrom_append : m.runFrom s (as ++ bs) = (m.runFrom s as).bind (m.runFrom · bs) := by
  induction as generalizing s
  case nil => rfl
  case cons a as hi =>
    rw [List.cons_append, runFrom, runFrom]
    cases m.step s a
    case none => rfl
    case some t => exact hi

theorem Reachable.runFrom (h : m.Reachable s) (hr : m.runFrom s as = some s') : m.Reachable s' := by
  obtain ⟨before, h⟩ := h
  exact ⟨before ++ as, by rw [run, runFrom_append]; exact (congrArg (Option.bind · _) h).trans hr⟩

-- What holds initially and is kept by every step holds after every run.
theorem runFrom_invariant {I : σ → Prop} (hs : ∀ s a s', I s → m.step s a = some s' → I s')
    (hi : I s) (h : m.runFrom s as = some s') : I s' := by
  induction as generalizing s
  case nil => exact (Option.some.inj h) ▸ hi
  case cons a as hn =>
    have ⟨t, ht, hr⟩ := runFrom_cons h
    exact hn (hs s a t hi ht) hr

theorem Reachable.invariant {I : σ → Prop} (h : m.Reachable s) (hi : I m.init)
    (hs : ∀ s a s', I s → m.step s a = some s' → I s') : I s :=
  have ⟨_, hr⟩ := h
  runFrom_invariant hs hi hr

-- A relation between the states before and after every step holds along every run.
theorem runFrom_relation {R : σ → σ → Prop} (hr : ∀ s, R s s)
    (ht : ∀ s t u, R s t → R t u → R s u) (hs : ∀ s a s', m.step s a = some s' → R s s')
    (h : m.runFrom s as = some s') : R s s' := by
  induction as generalizing s
  case nil => exact (Option.some.inj h) ▸ hr s
  case cons a as hi =>
    have ⟨t, ha, h⟩ := runFrom_cons h
    exact ht s t s' (hs s a t ha) (hi h)

-- What every action of one kind uses up, and no other adds to, bounds their number in a run.
theorem countP_le_of_potential {I : σ → Prop} {Φ : σ → ℕ} {p : α → Bool}
    (hi : ∀ s a s', I s → m.step s a = some s' → I s')
    (hp : ∀ s a s', I s → m.step s a = some s' → Φ s' + (if p a then 1 else 0) ≤ Φ s)
    (h : I s) (hr : m.runFrom s as = some s') : as.countP p + Φ s' ≤ Φ s := by
  induction as generalizing s
  case nil => simp [Option.some.inj hr]
  case cons a as hn =>
    obtain ⟨t, ht, hr⟩ := runFrom_cons hr
    have hs := hn (hi s a t h ht) hr
    have ha := hp s a t h ht
    rw [List.countP_cons]
    omega

-- The run takes each of its actions in a state that meets the condition.
def Meets (m : Machine σ α) (C : σ → α → Prop) : σ → List α → Prop
  | _, []      => True
  | s, a :: as => C s a ∧ ∀ s', m.step s a = some s' → m.Meets C s' as

theorem meets_append {C : σ → α → Prop} : m.Meets C s (as ++ bs) ↔
    m.Meets C s as ∧ ∀ s', m.runFrom s as = some s' → m.Meets C s' bs := by
  induction as generalizing s
  case nil => simp [Meets, runFrom]
  case cons a as hi =>
    simp only [List.cons_append, Meets, runFrom, hi, Option.bind_eq_some_iff]
    constructor
    case mp =>
      intro h
      exact ⟨⟨h.1, fun t ht => (h.2 t ht).1⟩, fun s' ⟨t, ht, hr⟩ => (h.2 t ht).2 s' hr⟩
    case mpr =>
      intro h
      exact ⟨h.1.1, fun t ht => ⟨h.1.2 t ht, fun s' hr => h.2 s' ⟨t, ht, hr⟩⟩⟩

theorem meets_of_mem {C : α → Prop} (h : ∀ a ∈ as, C a) : m.Meets (fun _ => C) s as := by
  induction as generalizing s
  case nil => trivial
  case cons a as hi =>
    rw [List.forall_mem_cons] at h
    exact ⟨h.1, fun _ _ => hi h.2⟩

theorem runFrom_invariant_of_meets {C : σ → α → Prop} {I : σ → Prop}
    (hs : ∀ s a s', I s → C s a → m.step s a = some s' → I s')
    (hi : I s) (hc : m.Meets C s as) (h : m.runFrom s as = some s') : I s' := by
  induction as generalizing s
  case nil => exact (Option.some.inj h) ▸ hi
  case cons a as hn =>
    have ⟨t, ht, hr⟩ := runFrom_cons h
    exact hn (hs s a t hi hc.1 ht) (hc.2 t ht) hr

-- The run has the property in each of its states.
def Always (m : Machine σ α) (P : σ → Prop) : σ → List α → Prop
  | s, []      => P s
  | s, a :: as => P s ∧ ∀ s', m.step s a = some s' → m.Always P s' as

theorem Always.first {P : σ → Prop} (h : m.Always P s as) : P s := by
  cases as
  case nil  => exact h
  case cons => exact h.1

-- When a step keeps a property just if it meets a condition, a run does.
theorem always_iff_meets {P I : σ → Prop} {C : σ → α → Prop}
    (hi : ∀ s a s', I s → m.step s a = some s' → I s')
    (hc : ∀ s a s', I s → P s → m.step s a = some s' → (P s' ↔ C s a))
    (h : I s) (hp : P s) (hr : m.runFrom s as = some s') :
    m.Always P s as ↔ m.Meets C s as := by
  induction as generalizing s
  case nil => exact iff_of_true hp trivial
  case cons a as hn =>
    obtain ⟨t, ht, hr⟩ := runFrom_cons hr
    have hn := fun hp' => hn (hi s a t h ht) hp' hr
    simp only [Always, Meets, ht, Option.some.injEq, forall_eq']
    constructor
    case mp =>
      intro ha
      have hp' := ha.2.first
      exact ⟨(hc s a t h hp ht).mp hp', (hn hp').mp ha.2⟩
    case mpr =>
      intro hm
      have hp' := (hc s a t h hp ht).mpr hm.1
      exact ⟨hp, (hn hp').mpr hm.2⟩

-- What follows from an invariant that such steps keep holds in each state.
theorem always_of_meets {P I : σ → Prop} {C : σ → α → Prop}
    (hs : ∀ s a s', I s → C s a → m.step s a = some s' → I s') (hp : ∀ s, I s → P s)
    (hi : I s) (hc : m.Meets C s as) : m.Always P s as := by
  induction as generalizing s
  case nil => exact hp s hi
  case cons a as hn =>
    exact ⟨hp s hi, fun s' ht => hn (hs s a s' hi hc.1 ht) (hc.2 s' ht)⟩

-- The run passes a state that has the property.
def Sometime (m : Machine σ α) (P : σ → Prop) (s : σ) (as : List α) : Prop :=
  ∃ before after t, as = before ++ after ∧ m.runFrom s before = some t ∧ P t

theorem Sometime.first {P : σ → Prop} (h : P s) : m.Sometime P s as :=
  ⟨[], as, s, rfl, rfl, h⟩

theorem Sometime.cons {P : σ → Prop} (hs : m.step s a = some s') (h : m.Sometime P s' as) :
    m.Sometime P s (a :: as) := by
  have ⟨before, after, t, he, ht, hp⟩ := h
  exact ⟨a :: before, after, t, congrArg _ he, by simp [runFrom, hs, ht], hp⟩

-- The run goes on from the state that it passes.
theorem Sometime.split {P : σ → Prop} (h : m.Sometime P s as) (hr : m.runFrom s as = some s') :
    ∃ before after t, m.runFrom s before = some t ∧ P t ∧ m.runFrom t after = some s' := by
  obtain ⟨before, after, t, rfl, ht, hp⟩ := h
  rw [runFrom_append, ht, Option.bind_some] at hr
  exact ⟨before, after, t, ht, hp, hr⟩

theorem Sometime.imp {P Q : σ → Prop} (hi : ∀ t, P t → Q t) (h : m.Sometime P s as) :
    m.Sometime Q s as := by
  have ⟨before, after, t, he, ht, hp⟩ := h
  exact ⟨before, after, t, he, ht, hi t hp⟩

-- What is known after a run and was not known before it has been learned in one of its states.
theorem sometime_of_learned {I K W : σ → Prop}
    (hi : ∀ s a s', I s → m.step s a = some s' → I s')
    (hk : ∀ s a s', I s → m.step s a = some s' → K s' → K s ∨ W s)
    (h : I s) (hn : ¬K s) (hr : m.runFrom s as = some s') (hs : K s') : m.Sometime W s as := by
  induction as generalizing s
  case nil => exact absurd ((Option.some.inj hr) ▸ hs) hn
  case cons a as hl =>
    obtain ⟨t, ht, hr⟩ := runFrom_cons hr
    by_cases hkt : K t
    case pos => exact .first ((hk s a t h ht hkt).resolve_left hn)
    case neg => exact .cons ht (hl (hi s a t h ht) hkt hr)

-- The machine with a record beside its state, which it does not read.
def track {η : Type} (m : Machine σ α) (start : η) (note : σ → α → η → η) : Machine (σ × η) α where
  init := (m.init, start)
  step x a := (m.step x.1 a).map fun s => (s, note x.1 a x.2)

theorem track_runFrom {η : Type} {start : η} {note : σ → α → η → η} (x : σ × η) (as : List α) :
    ((m.track start note).runFrom x as).map Prod.fst = m.runFrom x.1 as := by
  induction as generalizing x
  case nil => rfl
  case cons a as hi =>
    simp only [runFrom, track]
    cases m.step x.1 a
    case none   => rfl
    case some t => exact hi (t, note x.1 a x.2)

-- What is asked of the states alone does not depend on the record.
theorem track_meets {η : Type} {start : η} {note : σ → α → η → η} {C : σ → α → Prop} {x : σ × η} :
    (m.track start note).Meets (fun x => C x.1) x as ↔ m.Meets C x.1 as := by
  induction as generalizing x
  case nil => rfl
  case cons a as hi =>
    simp only [Meets, track, Option.map_eq_some_iff, forall_exists_index, and_imp,
      forall_apply_eq_imp_iff₂]
    exact and_congr_right fun _ => forall₂_congr fun t _ => hi

theorem track_always {η : Type} {start : η} {note : σ → α → η → η} {P : σ → Prop} {x : σ × η} :
    (m.track start note).Always (fun x => P x.1) x as ↔ m.Always P x.1 as := by
  induction as generalizing x
  case nil => rfl
  case cons a as hi =>
    simp only [Always, track, Option.map_eq_some_iff, forall_exists_index, and_imp,
      forall_apply_eq_imp_iff₂]
    exact and_congr_right fun _ => forall₂_congr fun t _ => hi

end Machine
