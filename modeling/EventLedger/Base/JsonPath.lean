import EventLedger.Base.JsonRoundtrip

namespace Option

variable {α β : Type} {R S : α → β → Prop} {o : Option α} {o' : Option β}

theorem Rel.isSome_eq (h : Rel R o o') : o.isSome = o'.isSome := by
  cases h <;> rfl

theorem Rel.imp (h : Rel R o o') (hs : ∀ x ∈ o, ∀ y ∈ o', R x y → S x y) : Rel S o o' := by
  cases h
  case none   => exact .none
  case some h => exact .some (hs _ rfl _ rfl h)

theorem rel_iff_map {f : α → β} {o o' : Option α} :
    Rel (fun x y => f x = f y) o o' ↔ o.map f = o'.map f := by
  refine ⟨fun h => ?_, fun h => ?_⟩
  case refine_1 =>
    cases h
    case some h => exact congrArg Option.some h
    case none   => rfl
  case refine_2 =>
    cases o <;> cases o'
    case none.none => exact .none
    case some.some => exact .some (Option.some.inj h)
    all_goals exact nomatch h

end Option

namespace List

variable {α β γ : Type}

theorem forall₂_iff_getElem? {R : α → β → Prop} {xs : List α} {ys : List β} :
    Forall₂ R xs ys ↔ ∀ i : ℕ, Option.Rel R xs[i]? ys[i]? := by
  induction xs generalizing ys <;> cases ys
  case nil.nil => exact iff_of_true .nil fun _ => .none
  case nil.cons y ys => exact iff_of_false nofun fun h => nomatch h 0
  case cons.nil x xs _ => exact iff_of_false nofun fun h => nomatch h 0
  case cons.cons x xs hi y ys =>
    rw [forall₂_cons, hi]
    refine ⟨fun h i => ?_, fun h => ⟨?_, fun i => h (i + 1)⟩⟩
    case refine_1 =>
      cases i
      case zero   => exact .some h.1
      case succ i => exact h.2 i
    case refine_2 =>
      cases h 0
      assumption

variable [BEq α] {l l' : List (α × β)} {a : α} {b : β}

theorem lookup_map_snd (f : β → γ) :
    (l.map fun p => (p.1, f p.2)).lookup a = (l.lookup a).map f := by
  induction l
  case nil => rfl
  case cons p l hi =>
    rw [map_cons, lookup_cons, lookup_cons, hi]
    split <;> rfl

variable [LawfulBEq α]

theorem lookup_eq_some_iff_mem (hn : (l.map Prod.fst).Nodup) :
    l.lookup a = some b ↔ (a, b) ∈ l :=
  ⟨mem_of_lookup, lookup_of_mem hn⟩

theorem lookup_isSome_iff_mem : (l.lookup a).isSome ↔ a ∈ l.map Prod.fst := by
  rw [lookup_isSome_iff, mem_map]
  exact exists_congr fun p => and_congr_right fun _ => beq_iff_eq.trans eq_comm

-- Two maps are one map, whatever the order of their entries, when every key finds the same.
theorem perm_iff_lookup (hn : (l.map Prod.fst).Nodup) (hn' : (l'.map Prod.fst).Nodup) :
    l.Perm l' ↔ ∀ a, l.lookup a = l'.lookup a := by
  rw [perm_ext_iff_of_nodup hn.of_map hn'.of_map]
  refine ⟨fun h a => Option.ext fun b => ?_, fun h p => ?_⟩
  case refine_1 => rw [lookup_eq_some_iff_mem hn, lookup_eq_some_iff_mem hn', h]
  case refine_2 => rw [← lookup_eq_some_iff_mem hn, ← lookup_eq_some_iff_mem hn', h]

end List

namespace Json

-- One step into a value, to the member of a name or to the element at an index.
inductive Step
  | name (k : Text)
  | index (i : ℕ)

def child : Json → Step → Option Json
  | obj fs, .name k  => fs.lookup k
  | arr xs, .index i => xs[i]?
  | _,      _        => none

-- What a value has at a place.
def descend : Json → List Step → Option Json
  | j, []        => some j
  | j, s :: path => (j.child s).bind (·.descend path)

def isArray : Json → Bool
  | arr _ => true
  | _     => false

-- What can be seen of a value without a step into it, up to the equality of Python.
def outline (j : Json) : Option Atom × Bool :=
  (j.atom, j.isArray)

variable {a b x y : Json} {m : Atom} {s : Step} {path : List Step}

theorem container_cases (j : Json) :
    (∃ m, j.atom = some m) ∨ (∃ xs, j = arr xs) ∨ ∃ fs, j = obj fs := by
  induction j using container_ind
  case atom m h => exact .inl ⟨m, h⟩
  case arr xs _ => exact .inr <| .inl ⟨xs, rfl⟩
  case obj fs _ => exact .inr <| .inr ⟨fs, rfl⟩

theorem child_of_atom (h : a.atom = some m) : a.child s = none := by
  cases a
  case arr | obj => simp [atom] at h
  all_goals rfl

theorem isArray_of_atom (h : a.atom = some m) : a.isArray = false := by
  cases a
  case arr => simp [atom] at h
  all_goals rfl

theorem outline_eq_of_atom (h : a.atom = some m) : a.outline = b.outline ↔ b.atom = some m := by
  refine ⟨fun he => (congrArg Prod.fst he).symm.trans h, fun hb => ?_⟩
  rw [outline, outline, h, hb, isArray_of_atom h, isArray_of_atom hb]

theorem outline_arr {xs : List Json} : (arr xs).outline = b.outline ↔ ∃ ys, b = arr ys := by
  cases b <;> simp [outline, atom, isArray]

theorem outline_obj {fs : List (Text × Json)} :
    (obj fs).outline = b.outline ↔ ∃ gs, b = obj gs := by
  obtain ⟨m, hm⟩ | ⟨xs, rfl⟩ | ⟨gs, rfl⟩ := b.container_cases
  case inl =>
    refine iff_of_false (fun he => nomatch (outline_eq_of_atom hm).mp he.symm) ?_
    rintro ⟨gs, rfl⟩
    exact nomatch hm
  case inr.inl => exact iff_of_false (fun he => nomatch congrArg Prod.snd he) nofun
  case inr.inr => exact iff_of_true rfl ⟨gs, rfl⟩

theorem child_arr {xs : List Json} (h : (arr xs).child s = some x) : x ∈ xs := by
  cases s
  case name    => exact nomatch h
  case index i => exact List.mem_of_getElem? h

theorem child_obj {fs : List (Text × Json)} (h : (obj fs).child s = some x) :
    ∃ f ∈ fs, f.2 = x := by
  cases s
  case name k => exact ⟨_, List.mem_of_lookup h, rfl⟩
  case index  => exact nomatch h

theorem child_wf (h : a.WF) (hc : a.child s = some x) : x.WF := by
  obtain ⟨m, hm⟩ | ⟨xs, rfl⟩ | ⟨fs, rfl⟩ := a.container_cases
  case inl     => simp [child_of_atom hm] at hc
  case inr.inl => exact wf_arr.mp h x (child_arr hc)
  case inr.inr =>
    obtain ⟨f, hf, rfl⟩ := child_obj hc
    exact (wf_obj.mp h).2 f hf

@[elab_as_elim]
theorem child_ind {P : Json → Prop} (h : ∀ a, (∀ s x, a.child s = some x → P x) → P a)
    (a : Json) : P a := by
  induction a using container_ind
  case atom hm   => exact h _ fun s x hc => by simp [child_of_atom hm] at hc
  case arr xs hi => exact h _ fun s x hc => hi x (child_arr hc)
  case obj fs hi =>
    refine h _ fun s x hc => ?_
    obtain ⟨f, hf, rfl⟩ := child_obj hc
    exact hi f hf

-- A relation that compares the heads of two values and itself relates what is behind every step
-- compares the heads of what they have at every place.
theorem rel_iff_descend {R Head : Json → Json → Prop}
    (hR : ∀ {a b}, a.WF → b.WF →
      (R a b ↔ Head a b ∧ ∀ s, Option.Rel R (a.child s) (b.child s)))
    (ha : a.WF) (hb : b.WF) :
    R a b ↔ ∀ path, Option.Rel Head (a.descend path) (b.descend path) := by
  refine ⟨fun h path => ?_, fun h => ?_⟩
  case refine_1 =>
    induction path generalizing a b
    case nil => exact .some ((hR ha hb).mp h).1
    case cons s path hi =>
      have hc := ((hR ha hb).mp h).2 s
      rw [descend, descend]
      cases hx : a.child s <;> cases hy : b.child s <;> rw [hx, hy] at hc <;> cases hc
      case none.none      => exact .none
      case some.some x y h => exact hi (child_wf ha hx) (child_wf hb hy) h
  case refine_2 =>
    induction a using child_ind generalizing b
    case h a hi =>
      refine (hR ha hb).mpr ⟨?_, fun s => ?_⟩
      case refine_1 =>
        cases h []
        assumption
      case refine_2 =>
        have hp (path) := h (s :: path)
        simp only [descend] at hp
        cases hx : a.child s <;> cases hy : b.child s <;> simp only [hx, hy] at hp ⊢
        case none.none => exact .none
        case none.some => exact nomatch hp []
        case some.none => exact nomatch hp []
        case some.some x y =>
          exact .some <| hi s x hx (child_wf ha hx) (child_wf hb hy) hp

theorem pyEq_child (h : pyEq a b) (hc : a.child s = some x) :
    ∃ y, b.child s = some y ∧ pyEq x y := by
  obtain ⟨m, hm⟩ | ⟨xs, rfl⟩ | ⟨fs, rfl⟩ := a.container_cases
  case inl => simp [child_of_atom hm] at hc
  case inr.inl =>
    obtain ⟨ys, rfl, hf⟩ := pyEq_arr_left.mp h
    cases s
    case name => exact nomatch hc
    case index i =>
      have hr := List.forall₂_iff_getElem?.mp hf i
      rw [show xs[i]? = some x from hc] at hr
      cases hy : ys[i]? <;> rw [hy] at hr <;> cases hr
      case some.some y hxy => exact ⟨y, hy, hxy⟩
  case inr.inr =>
    obtain ⟨gs, rfl, _, hf⟩ := pyEq_obj_left.mp h
    cases s
    case name k => exact hf _ (List.mem_of_lookup hc)
    case index  => exact nomatch hc

-- Values that Python finds equal stay equal when their other floats become null.
theorem nullNonFinite_pyEq (h : pyEq a b) : pyEq a.nullNonFinite b.nullNonFinite := by
  induction a using container_ind generalizing b
  case atom j m hm =>
    have hb := pyEq_atom_left hm |>.mp h
    have hs : j.isStandard = b.isStandard :=
      (isStandard_of_atom hm).trans (isStandard_of_atom hb).symm
    rw [nullNonFinite_of_atom hm, nullNonFinite_of_atom hb, hs]
    split
    case isTrue  => exact h
    case isFalse => exact pyEq_refl trivial
  case arr xs hi =>
    obtain ⟨ys, rfl, hf⟩ := pyEq_arr_left.mp h
    rw [nullNonFinite_arr, nullNonFinite_arr]
    refine pyEq_arr_left.mpr ⟨_, rfl, ?_⟩
    clear h
    induction hf
    case nil => exact .nil
    case cons hxy _ ht =>
      rw [List.forall_mem_cons] at hi
      exact .cons (hi.1 hxy) (ht hi.2)
  case obj fs hi =>
    obtain ⟨gs, rfl, hl, hf⟩ := pyEq_obj_left.mp h
    rw [nullNonFinite_obj, nullNonFinite_obj]
    refine pyEq_obj_left.mpr ⟨_, rfl, by simp [hl], ?_⟩
    rw [List.forall_mem_map]
    intro f hm
    obtain ⟨w, hw, hfw⟩ := hf f hm
    exact ⟨w.nullNonFinite, by rw [List.lookup_map_snd, hw]; rfl, hi f hm hfw⟩

theorem outline_eq_of_pyEq (h : pyEq a b) : a.outline = b.outline := by
  obtain ⟨m, hm⟩ | ⟨xs, rfl⟩ | ⟨fs, rfl⟩ := a.container_cases
  case inl => exact (outline_eq_of_atom hm).mpr <| (pyEq_atom_left hm).mp h
  case inr.inl =>
    obtain ⟨ys, he, _⟩ := pyEq_arr_left.mp h
    exact outline_arr.mpr ⟨ys, he⟩
  case inr.inr =>
    obtain ⟨gs, he, _⟩ := pyEq_obj_left.mp h
    exact outline_obj.mpr ⟨gs, he⟩

theorem pyEq_of_child (ha : a.WF) (hb : b.WF) (ho : a.outline = b.outline)
    (hc : ∀ s, Option.Rel (fun x y => pyEq x y) (a.child s) (b.child s)) : pyEq a b := by
  obtain ⟨m, hm⟩ | ⟨xs, rfl⟩ | ⟨fs, rfl⟩ := a.container_cases
  case inl => exact (pyEq_atom_left hm).mpr <| (outline_eq_of_atom hm).mp ho
  case inr.inl =>
    obtain ⟨ys, rfl⟩ := outline_arr.mp ho
    exact pyEq_arr_left.mpr ⟨ys, rfl, List.forall₂_iff_getElem?.mpr fun i => hc (.index i)⟩
  case inr.inr =>
    obtain ⟨gs, rfl⟩ := outline_obj.mp ho
    have hn : (fs.map Prod.fst).Perm (gs.map Prod.fst) := by
      refine (List.perm_ext_iff_of_nodup (wf_obj.mp ha).1 (wf_obj.mp hb).1).mpr fun k => ?_
      rw [← List.lookup_isSome_iff_mem, ← List.lookup_isSome_iff_mem]
      exact Bool.coe_iff_coe.mpr (hc (.name k)).isSome_eq
    refine pyEq_obj_left.mpr ⟨gs, rfl, by simpa using hn.length_eq, fun f hf => ?_⟩
    have hr : Option.Rel _ (fs.lookup f.1) (gs.lookup f.1) := hc (.name f.1)
    rw [List.lookup_of_mem (wf_obj.mp ha).1 hf] at hr
    cases hy : gs.lookup f.1 <;> rw [hy] at hr <;> cases hr
    case some.some y h => exact ⟨y, rfl, h⟩

theorem pyEq_iff_child (ha : a.WF) (hb : b.WF) : pyEq a b ↔
    a.outline = b.outline ∧ ∀ s, Option.Rel (fun x y => pyEq x y) (a.child s) (b.child s) := by
  refine ⟨fun h => ⟨outline_eq_of_pyEq h, fun s => ?_⟩, fun h => pyEq_of_child ha hb h.1 h.2⟩
  cases hx : a.child s
  case some x =>
    obtain ⟨y, hy, hxy⟩ := pyEq_child h hx
    exact hy ▸ .some hxy
  case none =>
    cases hy : b.child s
    case none => exact .none
    case some y =>
      obtain ⟨x, hx', _⟩ := pyEq_child (pyEq_symm ha hb h) hy
      exact nomatch hx.symm.trans hx'

-- Two values are equal when they have the same outline at every place.
theorem pyEq_iff_outline (ha : a.WF) (hb : b.WF) : pyEq a b ↔
    ∀ path, (a.descend path).map outline = (b.descend path).map outline := by
  simp only [rel_iff_descend pyEq_iff_child ha hb, Option.rel_iff_map]

theorem eq_of_nameLE {fs : List (Text × Json)} {f g : Text × Json} (hn : (fs.map Prod.fst).Nodup)
    (hf : f ∈ fs) (hg : g ∈ fs) (hfg : NameLE f g) (hgf : NameLE g f) : f = g := by
  refine List.inj_on_of_nodup_map hn hf hg ?_
  exact List.map_injective_iff.mpr (fun _ _ => Char.toNat_inj.mp) <| le_antisymm hfg hgf

theorem insertionSort_eq_iff {fs gs : List (Text × Json)} (hn : (fs.map Prod.fst).Nodup) :
    fs.insertionSort NameLE = gs.insertionSort NameLE ↔ fs.Perm gs := by
  refine ⟨fun h => ?_, fun h => ?_⟩
  case refine_1 =>
    exact (List.perm_insertionSort _ fs).symm.trans <| h ▸ List.perm_insertionSort _ gs
  case refine_2 =>
    refine List.Perm.eq_of_pairwise (fun f g hf hg => ?_) (List.pairwise_insertionSort NameLE fs)
      (List.pairwise_insertionSort NameLE gs) <|
      (List.perm_insertionSort _ fs).trans <| h.trans (List.perm_insertionSort _ gs).symm
    exact eq_of_nameLE hn (List.mem_insertionSort _ |>.mp hf) <|
      h.mem_iff.mpr (List.mem_insertionSort _ |>.mp hg)

theorem sorted_outline (a : Json) : a.sorted.outline = a.outline := by
  cases a <;> rfl

theorem child_sorted (h : a.WF) : a.sorted.child s = (a.child s).map sorted := by
  obtain ⟨m, hm⟩ | ⟨xs, rfl⟩ | ⟨fs, rfl⟩ := a.container_cases
  case inl => rw [sorted_of_atom hm, child_of_atom hm, Option.map_none]
  case inr.inl =>
    rw [sorted_arr]
    cases s
    case name    => rfl
    case index i => exact List.getElem?_map
  case inr.inr =>
    rw [sorted_obj]
    cases s
    case index  => rfl
    case name k =>
      have hn := (wf_obj.mp h).1
      have hp := List.perm_insertionSort NameLE (fs.map fun f => (f.1, f.2.sorted))
      have hs := sorted_names_perm fs
      have hm : ((fs.map fun f => (f.1, f.2.sorted)).map Prod.fst).Nodup := by
        rw [List.map_map]
        exact hn
      exact ((List.perm_iff_lookup (hs.nodup_iff.mpr hn) hm).mp hp k).trans <|
        List.lookup_map_snd sorted

-- Nothing tells two values apart without a step into them.
def Same (a b : Json) : Prop :=
  a.outline = b.outline ∧ (a.atom.isSome → a = b)

theorem sorted_eq_of_child (ha : a.WF) (hb : b.WF) (hs : Same a b)
    (hc : ∀ s, (a.child s).map sorted = (b.child s).map sorted) : a.sorted = b.sorted := by
  obtain ⟨m, hm⟩ | ⟨xs, rfl⟩ | ⟨fs, rfl⟩ := a.container_cases
  case inl => rw [hs.2 (hm ▸ rfl)]
  case inr.inl =>
    obtain ⟨ys, rfl⟩ := outline_arr.mp hs.1
    rw [sorted_arr, sorted_arr, arr.injEq]
    refine List.ext_getElem? fun i => ?_
    rw [List.getElem?_map, List.getElem?_map]
    exact hc (.index i)
  case inr.inr =>
    obtain ⟨gs, rfl⟩ := outline_obj.mp hs.1
    have hn {fs : List (Text × Json)} (h : (obj fs).WF) :
        ((fs.map fun f => (f.1, f.2.sorted)).map Prod.fst).Nodup := by
      rw [List.map_map]
      exact (wf_obj.mp h).1
    rw [sorted_obj, sorted_obj, obj.injEq, insertionSort_eq_iff (hn ha),
      List.perm_iff_lookup (hn ha) (hn hb)]
    intro k
    rw [List.lookup_map_snd, List.lookup_map_snd]
    exact hc (.name k)

theorem sorted_eq_iff_child (ha : a.WF) (hb : b.WF) : a.sorted = b.sorted ↔
    Same a b ∧ ∀ s, Option.Rel (fun x y => x.sorted = y.sorted) (a.child s) (b.child s) := by
  simp only [Option.rel_iff_map]
  refine ⟨fun h => ⟨⟨?_, fun hm => ?_⟩, fun s => ?_⟩, fun h => sorted_eq_of_child ha hb h.1 h.2⟩
  case refine_1 => rw [← sorted_outline a, h, sorted_outline b]
  case refine_2 =>
    obtain ⟨m, hm⟩ := Option.isSome_iff_exists.mp hm
    have ho : a.outline = b.outline := by rw [← sorted_outline a, h, sorted_outline b]
    rw [← sorted_of_atom hm, h, sorted_of_atom ((outline_eq_of_atom hm).mp ho)]
  case refine_3 => rw [← child_sorted ha, ← child_sorted hb, h]

theorem dumps_eq_iff_sorted (ha : a.WF) (hb : b.WF) : a.dumps = b.dumps ↔ a.sorted = b.sorted := by
  refine ⟨fun h => ?_, congrArg emit⟩
  rw [← Option.some_inj, ← loads_dumps ha, h, loads_dumps hb]

-- The text with sorted names is the same for two values that nothing tells apart at any place.
theorem dumps_eq_iff_same (ha : a.WF) (hb : b.WF) : a.dumps = b.dumps ↔
    ∀ path, Option.Rel Same (a.descend path) (b.descend path) :=
  (dumps_eq_iff_sorted ha hb).trans <| rel_iff_descend sorted_eq_iff_child ha hb

-- Two scalars that are not the same although Python finds them equal.
def Alias (x y : Json) : Prop :=
  x ≠ y ∧ x.atom.isSome ∧ x.atom = y.atom

-- The value of an atom that is no number.
def Atom.json? : Atom → Option Json
  | null    => some .null
  | fin _   => none
  | inf neg => some <| .float (.inf neg)
  | nan     => some <| .float .nan
  | str s   => some <| .str s

theorem json?_of_atom (h : a.atom = some m) : m.json? = some a ∨ ∃ v, m = .fin v := by
  cases a
  case float x =>
    cases x <;> cases h
    case nan => exact .inl rfl
    case inf => exact .inl rfl
    case finite => exact .inr ⟨_, rfl⟩
  all_goals cases h
  case null => exact .inl rfl
  case bool => exact .inr ⟨_, rfl⟩
  case int  => exact .inr ⟨_, rfl⟩
  case str  => exact .inl rfl

-- Such scalars are numbers, a Boolean being one.
theorem Alias.fin (h : Alias x y) : ∃ v, x.atom = some (.fin v) ∧ y.atom = some (.fin v) := by
  obtain ⟨hn, hs, he⟩ := h
  obtain ⟨m, hm⟩ := Option.isSome_iff_exists.mp hs
  rw [hm] at he
  obtain hx | ⟨v, rfl⟩ := json?_of_atom hm
  case inr => exact ⟨v, hm, he.symm⟩
  obtain hy | ⟨v, rfl⟩ := json?_of_atom he.symm
  case inr => exact ⟨v, hm, he.symm⟩
  exact absurd (Option.some.inj (hx.symm.trans hy)) hn

theorem same_iff (h : a.outline = b.outline) : Same a b ↔ ¬Alias a b := by
  have ha : a.atom = b.atom := congrArg Prod.fst h
  simp only [Same, Alias, h, ha, true_and, and_true, not_and, ne_eq, not_imp_not]

-- The texts of two values are the same when the values are equal, and equal by more than the
-- value of a number at every place.
theorem dumps_eq_iff (ha : a.WF) (hb : b.WF) : a.dumps = b.dumps ↔ pyEq a b ∧
    ∀ path x y, a.descend path = some x → b.descend path = some y → ¬Alias x y := by
  rw [dumps_eq_iff_same ha hb, pyEq_iff_outline ha hb]
  refine ⟨fun h => ⟨fun path => ?_, fun path x y hx hy => ?_⟩, fun ⟨ho, hn⟩ path => ?_⟩
  case refine_1 => exact Option.rel_iff_map.mp <| (h path).imp fun _ _ _ _ h => h.1
  case refine_2 =>
    have hr := h path
    rw [hx, hy] at hr
    cases hr
    case some h => exact (same_iff h.1).mp h
  case refine_3 =>
    exact (Option.rel_iff_map.mpr (ho path)).imp fun x hx y hy h =>
      (same_iff h).mpr (hn path x y hx hy)

end Json
