import EventLedger.Base.Machine
import Mathlib.Algebra.BigOperators.Group.Finset.Basic
import Mathlib.Algebra.BigOperators.Group.Finset.Sigma
import Mathlib.Data.Finset.Basic

-- What identifies an entry, the account that it belongs to, and the unit of the account.
structure Chart (ε κ γ δ : Type) where
  key : ε → κ
  account : ε → γ
  unit : ε → δ

-- Entries that have been posted, and those of them that have been acknowledged.
structure Ledger {ε κ γ δ : Type} (c : Chart ε κ γ δ) where
  posted : Finset ε
  acknowledged : Finset ε
  unique : Set.InjOn c.key posted
  one_unit : ∀ e ∈ posted, ∀ f ∈ posted, c.account e = c.account f → c.unit e = c.unit f
  backed : acknowledged ⊆ posted

namespace Ledger

inductive Action (ε : Type)
  | post (e : ε)
  | acknowledge (e : ε)
  deriving DecidableEq

variable {ε κ γ δ : Type} {c : Chart ε κ γ δ} {l l' : Ledger c} {e : ε}

@[ext]
theorem ext (hp : l.posted = l'.posted) (ha : l.acknowledged = l'.acknowledged) : l = l' := by
  cases l; cases l'; simp_all

def empty (c : Chart ε κ γ δ) : Ledger c where
  posted := ∅
  acknowledged := ∅
  unique := by simp
  one_unit := by simp
  backed := Finset.empty_subset _

-- A new key, in the unit of its account.
def Admits (l : Ledger c) (e : ε) : Prop :=
  ∀ f ∈ l.posted, c.key f ≠ c.key e ∧ (c.account f = c.account e → c.unit f = c.unit e)

instance [DecidableEq κ] [DecidableEq γ] [DecidableEq δ] (l : Ledger c) (e : ε) :
    Decidable (l.Admits e) :=
  inferInstanceAs (Decidable (∀ f ∈ l.posted, _))

variable [DecidableEq ε]

def post (l : Ledger c) (e : ε) (h : l.Admits e) : Ledger c where
  posted := insert e l.posted
  acknowledged := l.acknowledged
  unique := by
    have hn : e ∉ (l.posted : Set ε) := fun hm => (h e hm).1 rfl
    rw [Finset.coe_insert, Set.injOn_insert hn]
    refine ⟨l.unique, ?_⟩
    rintro ⟨f, hf, hk⟩
    exact (h f hf).1 hk
  one_unit := by
    simp only [Finset.forall_mem_insert]
    refine ⟨⟨fun _ => trivial, fun f hf ha => ((h f hf).2 ha.symm).symm⟩, fun f hf => ?_⟩
    exact ⟨(h f hf).2, l.one_unit f hf⟩
  backed := l.backed.trans (Finset.subset_insert ..)

def acknowledge (l : Ledger c) (e : ε) (h : e ∈ l.posted) : Ledger c where
  posted := l.posted
  acknowledged := insert e l.acknowledged
  unique := l.unique
  one_unit := l.one_unit
  backed := Finset.insert_subset h l.backed

section Total

variable {M : Type} [AddCommMonoid M] [DecidableEq γ] (amount : ε → M) (account : γ)

-- What the entries of an account among some entries add up to.
def total (c : Chart ε κ γ δ) (entries : Finset ε) : M :=
  ∑ e ∈ entries with c.account e = account, amount e

def pending (l : Ledger c) : Finset ε :=
  l.posted \ l.acknowledged

-- What an account holds is what has been acknowledged and what has not.
theorem total_posted (l : Ledger c) : total amount account c l.posted =
    total amount account c l.acknowledged + total amount account c l.pending := by
  have hd : Disjoint (l.acknowledged.filter (c.account · = account))
      (l.pending.filter (c.account · = account)) :=
    Finset.disjoint_filter_filter Finset.disjoint_sdiff
  rw [total, total, total, ← Finset.sum_union hd, ← Finset.filter_union, pending,
    Finset.union_sdiff_of_subset l.backed]

end Total

variable [DecidableEq κ] [DecidableEq γ] [DecidableEq δ]

-- An entry is posted once, and acknowledged once when it has been posted.
def step (l : Ledger c) : Action ε → Option (Ledger c)
  | .post e        => if h : l.Admits e then some (l.post e h) else none
  | .acknowledge e =>
    if h : e ∈ l.posted ∧ e ∉ l.acknowledged then some (l.acknowledge e h.1) else none

def machine (c : Chart ε κ γ δ) : Machine (Ledger c) (Action ε) where
  init := empty c
  step := step

theorem step_post (h : l.Admits e) : (machine c).step l (.post e) = some (l.post e h) :=
  dif_pos h

theorem step_acknowledge (h : e ∈ l.posted) (hn : e ∉ l.acknowledged) :
    (machine c).step l (.acknowledge e) = some (l.acknowledge e h) :=
  dif_pos ⟨h, hn⟩

-- All that a step can do.
inductive Moves (l : Ledger c) : Action ε → Ledger c → Prop
  | post {f u} : l.Admits f → u.posted = insert f l.posted →
    u.acknowledged = l.acknowledged → Moves l (.post f) u
  | acknowledge {f u} : f ∈ l.posted → f ∉ l.acknowledged → u.posted = l.posted →
    u.acknowledged = insert f l.acknowledged → Moves l (.acknowledge f) u

theorem step_moves {a : Action ε} (h : (machine c).step l a = some l') : l.Moves a l' := by
  cases a
  case post e =>
    have ⟨ha, he⟩ := Option.dite_none_right_eq_some.mp h
    exact Option.some.inj he ▸ .post ha rfl rfl
  case acknowledge e =>
    have ⟨ha, he⟩ := Option.dite_none_right_eq_some.mp h
    exact Option.some.inj he ▸ .acknowledge ha.1 ha.2 rfl rfl

-- The entries that a sequence of actions posts, and those that it acknowledges.
def posts (as : List (Action ε)) : List ε :=
  as.filterMap fun
    | .post e => some e
    | _       => none

def acknowledgements (as : List (Action ε)) : List ε :=
  as.filterMap fun
    | .acknowledge e => some e
    | _              => none

-- A run posts each key once and acknowledges each entry once, after it has been posted.
structure Ran (l : Ledger c) (as : List (Action ε)) (l' : Ledger c) : Prop where
  posted : ∀ e, e ∈ l'.posted ↔ e ∈ l.posted ∨ e ∈ posts as
  acknowledged : ∀ e, e ∈ l'.acknowledged ↔ e ∈ l.acknowledged ∨ e ∈ acknowledgements as
  keys : ((posts as).map c.key).Nodup
  fresh : ∀ e ∈ posts as, ∀ f ∈ l.posted, c.key f ≠ c.key e
  once : (acknowledgements as).Nodup
  unacknowledged : ∀ e ∈ acknowledgements as, e ∉ l.acknowledged
  backed : ∀ before e after, as = before ++ .acknowledge e :: after →
    e ∈ l.posted ∨ e ∈ posts before

theorem ran {as : List (Action ε)} (h : (machine c).runFrom l as = some l') : Ran l as l' := by
  induction as generalizing l
  case nil =>
    have h := Option.some.inj h
    subst h
    exact ⟨by simp [posts], by simp [acknowledgements], .nil, by simp [posts], .nil,
      by simp [acknowledgements], by simp⟩
  case cons a as hi =>
    have ⟨u, hu, h⟩ := Machine.runFrom_cons h
    have hr := hi h
    cases step_moves hu
    case post e ha hp hk =>
      have hps : posts (.post e :: as) = e :: posts as := rfl
      have has : acknowledgements (.post e :: as) = acknowledgements as := rfl
      have hpu : ∀ f, f ∈ u.posted ↔ f = e ∨ f ∈ l.posted := by simp [hp]
      constructor
      case posted =>
        intro f
        rw [hr.posted, hpu, hps, List.mem_cons]
        tauto
      case acknowledged => exact fun f => by rw [hr.acknowledged, hk, has]
      case keys =>
        rw [hps, List.map_cons, List.nodup_cons]
        refine ⟨fun hm => ?_, hr.keys⟩
        have ⟨f, hf, he⟩ := List.mem_map.mp hm
        exact hr.fresh f hf e ((hpu e).mpr (.inl rfl)) he.symm
      case fresh =>
        intro f hf g hg
        cases List.mem_cons.mp (hps ▸ hf)
        case inl hf => exact hf ▸ (ha g hg).1
        case inr hf => exact hr.fresh f hf g ((hpu g).mpr (.inr hg))
      case once           => exact has ▸ hr.once
      case unacknowledged => exact fun f hf => hk ▸ hr.unacknowledged f (has ▸ hf)
      case backed =>
        intro before f after he
        cases before
        case nil => cases he
        case cons b before =>
          obtain ⟨rfl, hs⟩ := List.cons.inj he
          have hps : posts (.post e :: before) = e :: posts before := rfl
          rw [hps, List.mem_cons]
          cases hr.backed before f after hs
          case inl hf => exact ((hpu f).mp hf).elim (fun hf => .inr (.inl hf)) .inl
          case inr hf => exact .inr (.inr hf)
    case acknowledge e ha hn hp hk =>
      have hps : posts (.acknowledge e :: as) = posts as := rfl
      have has : acknowledgements (.acknowledge e :: as) = e :: acknowledgements as := rfl
      have hku : ∀ f, f ∈ u.acknowledged ↔ f = e ∨ f ∈ l.acknowledged := by simp [hk]
      constructor
      case posted => exact fun f => by rw [hr.posted, hp, hps]
      case acknowledged =>
        intro f
        rw [hr.acknowledged, hku, has, List.mem_cons]
        tauto
      case keys  => exact hps ▸ hr.keys
      case fresh => exact fun f hf g hg => hr.fresh f (hps ▸ hf) g (hp ▸ hg)
      case once  =>
        rw [has, List.nodup_cons]
        exact ⟨fun hm => hr.unacknowledged e hm ((hku e).mpr (.inl rfl)), hr.once⟩
      case unacknowledged =>
        intro f hf hl
        cases List.mem_cons.mp (has ▸ hf)
        case inl hf => exact hn (hf ▸ hl)
        case inr hf => exact hr.unacknowledged f hf ((hku f).mpr (.inr hl))
      case backed =>
        intro before f after he
        cases before
        case nil =>
          have ⟨he, _⟩ := List.cons.inj he
          cases he
          exact .inl ha
        case cons b before =>
          obtain ⟨rfl, hs⟩ := List.cons.inj he
          exact hp ▸ hr.backed before f after hs

end Ledger
