import EventLedger.Base.Text
import Mathlib.Data.List.DropRight
import Mathlib.Data.List.Pairwise

-- Routes by templates of paths, which leave some of the segments open.
namespace Router

inductive Segment
  | literal (t : Text)
  | param
  deriving DecidableEq

abbrev Template :=
  List Segment

-- A segment in braces is a parameter.
def compileSegment (s : Text) : Segment :=
  if s.head? = some '\x7b' ∧ s.getLast? = some '\x7d' then .param else .literal s

def compilePath (path : Text) : Template :=
  (path.splitOn '/').map compileSegment

-- A parameter takes one segment that is not empty. The end of a pattern also matches before a
-- newline at the end of the path.
def matchSegments : Template → List Text → Option (List Text)
  | [],               []      => some []
  | [.literal t],     [s]     => if s = t ∨ s = t ++ ['\n'] then some [] else none
  | .literal t :: ts, s :: ss => if s = t then matchSegments ts ss else none
  | .param :: ts,     s :: ss => if s = [] then none else (matchSegments ts ss).map (s :: ·)
  | _,                _       => none

-- The segments that a template stands for with some arguments.
inductive Fits : Template → List Text → List Text → Prop
  | nil : Fits [] [] []
  | literal {t ts args ss} : Fits ts args ss → Fits (.literal t :: ts) args (t :: ss)
  | newline {t} : Fits [.literal t] [] [t ++ ['\n']]
  | param {s ts args ss} : s ≠ [] → Fits ts args ss → Fits (.param :: ts) (s :: args) (s :: ss)

variable {ts us : Template} {args args' ss : List Text} {path a : Text}

theorem matchSegments_eq_some : matchSegments ts ss = some args ↔ Fits ts args ss := by
  constructor
  case mp =>
    intro h
    fun_induction matchSegments ts ss generalizing args
    case case1 =>
      cases h
      exact .nil
    case case2 t s he =>
      cases h
      rcases he with rfl | rfl
      case inl => exact .literal .nil
      case inr => exact .newline
    case case4 hi => exact .literal (hi h)
    case case7 ts s ss hn hi =>
      obtain ⟨rest, hr, rfl⟩ := Option.map_eq_some_iff.mp h
      exact .param hn (hi hr)
    all_goals cases h
  case mpr =>
    intro h
    induction h
    case nil     => rfl
    case newline => simp [matchSegments]
    case literal t ts args ss hf hi =>
      cases hf
      case nil => simp [matchSegments]
      all_goals simpa only [matchSegments, if_true] using hi
    case param hn _ hi => simp [matchSegments, hn, hi]

theorem Fits.functional (h : Fits ts args ss) (h' : Fits ts args' ss) : args = args' :=
  Option.some.inj ((matchSegments_eq_some.mpr h).symm.trans (matchSegments_eq_some.mpr h'))

-- The arguments are segments.
theorem Fits.mem (h : Fits ts args ss) : ∀ a ∈ args, a ∈ ss ∧ a ≠ [] := by
  induction h
  case nil     => simp
  case newline => simp
  case literal hi => exact fun a ha => ⟨List.mem_cons_of_mem _ (hi a ha).1, (hi a ha).2⟩
  case param hn _ hi =>
    intro a ha
    rcases List.mem_cons.mp ha with rfl | ha
    case inl => exact ⟨List.mem_cons_self, hn⟩
    case inr => exact ⟨List.mem_cons_of_mem _ (hi a ha).1, (hi a ha).2⟩

theorem Fits.argument (h : Fits ts args (path.splitOn '/')) (ha : a ∈ args) : a ≠ [] ∧ '/' ∉ a :=
  ⟨(h.mem a ha).2, Text.not_mem_of_mem_splitOn (h.mem a ha).1⟩

-- The path that a template is made for.
def fill : Template → List Text → List Text
  | [],               _         => []
  | .literal t :: ts, args      => t :: fill ts args
  | .param :: ts,     a :: args => a :: fill ts args
  | .param :: ts,     []        => [] :: fill ts []

def url (ts : Template) (args : List Text) : Text :=
  ['/'].intercalate (fill ts args)

theorem fits_fill (hl : args.length = ts.count .param) (ha : ∀ a ∈ args, a ≠ []) :
    Fits ts args (fill ts args) := by
  induction ts generalizing args
  case nil => cases List.eq_nil_of_length_eq_zero hl; exact .nil
  case cons segment ts hi =>
    cases segment
    case literal t => exact .literal (hi (by simpa using hl) ha)
    case param =>
      cases args
      case nil => simp at hl
      case cons a args =>
        rw [List.forall_mem_cons] at ha
        exact .param ha.1 (hi (by simpa using hl) ha.2)

-- The literals of a template are segments.
structure Plain (ts : Template) : Prop where
  nonempty : ts ≠ []
  literals : ∀ segment ∈ ts, ∀ t, segment = .literal t → '/' ∉ t

def Segment.isPlain : Segment → Bool
  | .literal t => '/' ∉ t
  | .param     => true

theorem plain_iff : Plain ts ↔ ts ≠ [] ∧ ts.all Segment.isPlain := by
  rw [List.all_eq_true]
  constructor
  case mp =>
    intro h
    refine ⟨h.nonempty, fun segment hs => ?_⟩
    cases segment
    case literal t => exact decide_eq_true (h.literals _ hs t rfl)
    case param     => rfl
  case mpr =>
    rintro ⟨hn, ha⟩
    refine ⟨hn, fun segment hs t he => ?_⟩
    subst he
    exact of_decide_eq_true (ha _ hs)

instance (ts : Template) : Decidable (Plain ts) :=
  decidable_of_iff _ plain_iff.symm

theorem Plain.splitOn_url (h : Plain ts) (ha : ∀ a ∈ args, '/' ∉ a) :
    (url ts args).splitOn '/' = fill ts args := by
  have hn := h.nonempty
  have ht : ∀ t, .literal t ∈ ts → '/' ∉ t := fun t hm => h.literals _ hm t rfl
  clear h
  have hs : ∀ s ∈ fill ts args, '/' ∉ s := by
    intro s hs
    clear hn
    induction ts generalizing args
    case nil => cases hs
    case cons segment ts hi =>
      have ht' := fun t hm => ht t (List.mem_cons_of_mem _ hm)
      cases segment
      case literal t =>
        rcases List.mem_cons.mp hs with rfl | hs
        case inl => exact ht s List.mem_cons_self
        case inr => exact hi ha ht' hs
      case param =>
        cases args
        case nil =>
          rcases List.mem_cons.mp hs with rfl | hs
          case inl => simp
          case inr => exact hi ha ht' hs
        case cons a args =>
          rw [List.forall_mem_cons] at ha
          rcases List.mem_cons.mp hs with rfl | hs
          case inl => exact ha.1
          case inr => exact hi ha.2 ht' hs
  refine List.splitOn_intercalate '/' hs ?_
  cases ts
  case nil => exact absurd rfl hn
  case cons segment ts => cases segment <;> cases args <;> simp [fill]

theorem Fits.length (h : Fits ts args ss) : args.length = ts.count .param := by
  induction h
  case nil          => rfl
  case newline      => rfl
  case literal hi   => simpa using hi
  case param _ _ hi => simpa using hi

-- A template has a path with some arguments just if each of them is a segment that is not empty.
theorem Plain.exists_path_iff (h : Plain ts) : (∃ path : Text, Fits ts args (path.splitOn '/')) ↔
    args.length = ts.count .param ∧ ∀ a ∈ args, a ≠ [] ∧ '/' ∉ a := by
  constructor
  case mp  => exact fun ⟨_, hf⟩ => ⟨hf.length, fun _ ha => hf.argument ha⟩
  case mpr =>
    intro ⟨hl, ha⟩
    refine ⟨url ts args, ?_⟩
    rw [h.splitOn_url fun a hm => (ha a hm).2]
    exact fits_fill hl fun a hm => (ha a hm).1

-- Whether two templates can fit the same segments.
def overlap : Template → Template → Bool
  | [],               []               => true
  | .literal t :: ts, .literal u :: us =>
    (t = u || t = u ++ ['\n'] || u = t ++ ['\n']) && overlap ts us
  | _ :: ts,          _ :: us          => overlap ts us
  | _,                _                => false

theorem overlap_of_fits (h : Fits ts args ss) (h' : Fits us args' ss) : overlap ts us := by
  induction h generalizing us args'
  case nil =>
    cases h'
    rfl
  case newline t =>
    generalize hs : [t ++ ['\n']] = ss at h'
    cases h'
    case nil => cases hs
    case literal hf =>
      obtain ⟨rfl, rfl⟩ := List.cons.inj hs
      cases hf
      simp [overlap]
    case newline =>
      have hs := List.append_cancel_right (List.cons.inj hs).1
      simp [overlap, hs]
    case param hf =>
      obtain ⟨rfl, rfl⟩ := List.cons.inj hs
      cases hf
      rfl
  case literal t ts args ss hf hi =>
    generalize hs : t :: ss = ss' at h'
    cases h'
    case nil => cases hs
    case literal hf' =>
      obtain ⟨rfl, rfl⟩ := List.cons.inj hs
      simpa [overlap] using hi hf'
    case newline =>
      obtain ⟨rfl, rfl⟩ := List.cons.inj hs
      cases hf
      simp [overlap]
    case param hf' =>
      obtain ⟨rfl, rfl⟩ := List.cons.inj hs
      exact hi hf'
  case param s ts args ss hn hf hi =>
    generalize hs : s :: ss = ss' at h'
    cases h'
    case nil => cases hs
    case literal hf' =>
      obtain ⟨rfl, rfl⟩ := List.cons.inj hs
      exact hi hf'
    case newline =>
      obtain ⟨rfl, rfl⟩ := List.cons.inj hs
      cases hf
      rfl
    case param hf' =>
      obtain ⟨rfl, rfl⟩ := List.cons.inj hs
      exact hi hf'

theorem overlap_comm (ts us : Template) : overlap ts us = overlap us ts := by
  induction ts generalizing us <;> cases us
  case nil.nil  => rfl
  case nil.cons => simp [overlap]
  case cons.nil => simp [overlap]
  case cons.cons segment ts hi segment' us =>
    cases segment <;> cases segment'
    case literal.literal t u =>
      simp only [overlap, hi us, eq_comm (a := t) (b := u)]
      rw [Bool.or_assoc, Bool.or_comm (decide (t = _)), ← Bool.or_assoc]
    all_goals exact hi us

-- A route, and where it leads to with the arguments of its template.
structure Entry (μ ε : Type) where
  method : μ
  template : Template
  endpoint : List Text → Option ε

def noParam {ε : Type} (endpoint : ε) : List Text → Option ε
  | [] => some endpoint
  | _  => none

-- An endpoint with one parameter.
def oneParam {ε : Type} (endpoint : Text → ε) : List Text → Option ε
  | [value] => some (endpoint value)
  | _       => none

variable {μ ε : Type} {table : List (Entry μ ε)} {method : μ} {e : ε}

@[simp]
theorem oneParam_singleton (endpoint : Text → ε) : oneParam endpoint [a] = some (endpoint a) :=
  rfl

theorem noParam_eq_some {endpoint : ε} :
    noParam endpoint args = some e ↔ args = [] ∧ endpoint = e := by
  cases args <;> simp [noParam]

theorem oneParam_eq_some {endpoint : Text → ε} :
    oneParam endpoint args = some e ↔ ∃ a, args = [a] ∧ endpoint a = e := by
  rcases args with _ | ⟨a, _ | ⟨b, args⟩⟩ <;> simp [oneParam]

-- The routes whose pattern matches a path, in their order.
def matching (table : List (Entry μ ε)) (path : Text) : List (μ × ε) :=
  table.filterMap fun entry =>
    (matchSegments entry.template (path.splitOn '/')).bind fun args =>
      (entry.endpoint args).map (entry.method, ·)

theorem mem_matching : (method, e) ∈ matching table path ↔ ∃ entry ∈ table,
    entry.method = method ∧ ∃ args, Fits entry.template args (path.splitOn '/') ∧
      entry.endpoint args = some e := by
  simp only [matching, List.mem_filterMap, Option.bind_eq_some_iff, matchSegments_eq_some,
    Option.map_eq_some_iff, Prod.mk.injEq]
  constructor
  case mp =>
    rintro ⟨entry, hm, args, hf, e', he, hmethod, rfl⟩
    exact ⟨entry, hm, hmethod, args, hf, he⟩
  case mpr =>
    rintro ⟨entry, hm, hmethod, args, hf, he⟩
    exact ⟨entry, hm, args, hf, e, he, hmethod, rfl⟩

inductive Routed (ε : Type)
  | endpoint (e : ε)
  | methodNotAllowed
  | redirect
  | notFound
  deriving DecidableEq

-- The path with the slash at its end removed or added.
def redirectPath (path : Text) : Text :=
  if path.getLast? = some '/' then path.rdropWhile (· = '/') else path ++ ['/']

-- No path is that of two routes of one method.
def Unambiguous (table : List (Entry μ ε)) : Prop :=
  table.Pairwise fun x y => x.method = y.method → overlap x.template y.template = false

theorem Unambiguous.endpoint (h : Unambiguous table) {x y : Entry μ ε} (hx : x ∈ table)
    (hy : y ∈ table) (he : x.method = y.method) (hf : Fits x.template args ss)
    (hf' : Fits y.template args' ss) : x.endpoint args = y.endpoint args' := by
  by_cases hxy : x = y
  case pos =>
    subst hxy
    rw [hf.functional hf']
  case neg =>
    have hs : Std.Symm fun x y : Entry μ ε =>
        x.method = y.method → overlap x.template y.template = false :=
      ⟨fun x y h he => (overlap_comm ..).trans (h he.symm)⟩
    have hn := List.Pairwise.forall h hx hy hxy he
    exact absurd (overlap_of_fits hf hf') (by simp [hn])

variable [DecidableEq μ]

-- A path of another method is refused, a path that misses or adds a slash is redirected.
def dispatch (table : List (Entry μ ε)) (method : μ) (path : Text) : Routed ε :=
  match (matching table path).find? (·.1 = method) with
  | some (_, e) => .endpoint e
  | none        =>
    if matching table path ≠ [] then .methodNotAllowed
    else if path ≠ ['/'] ∧ matching table (redirectPath path) ≠ [] then .redirect
    else .notFound

instance (table : List (Entry μ ε)) : Decidable (Unambiguous table) :=
  inferInstanceAs (Decidable (table.Pairwise _))

theorem mem_matching_of_dispatch (h : dispatch table method path = .endpoint e) :
    (method, e) ∈ matching table path := by
  unfold dispatch at h
  split at h
  case h_1 m e' hf =>
    have hm : m = method := by simpa using List.find?_some hf
    rw [← hm, ← Routed.endpoint.inj h]
    exact List.mem_of_find?_eq_some hf
  case h_2 =>
    split at h
    case isTrue => cases h
    case isFalse => split at h <;> cases h

-- A request leads to an endpoint just if a route of its method fits its path.
theorem Unambiguous.dispatch_iff (h : Unambiguous table) :
    dispatch table method path = .endpoint e ↔ ∃ entry ∈ table, entry.method = method ∧
      ∃ args, Fits entry.template args (path.splitOn '/') ∧ entry.endpoint args = some e := by
  rw [← mem_matching]
  refine ⟨mem_matching_of_dispatch, fun hm => ?_⟩
  unfold dispatch
  split
  case h_1 m e' hf =>
    have hm' : m = method := by simpa using List.find?_some hf
    have hf := List.mem_of_find?_eq_some hf
    rw [hm'] at hf
    have ⟨x, hx, hxm, args, hfx, hex⟩ := mem_matching.mp hm
    have ⟨y, hy, hym, args', hfy, hey⟩ := mem_matching.mp hf
    have he := h.endpoint hx hy (hxm.trans hym.symm) hfx hfy
    exact congrArg Routed.endpoint (Option.some.inj (hey.symm.trans (he.symm.trans hex)))
  case h_2 hn => exact absurd (List.find?_eq_none.mp hn _ hm) (by simp)

end Router
