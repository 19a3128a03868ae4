import EventLedger.Account.Theorems.Routes
import EventLedger.Gateway.Theorems.Client
import Mathlib.Data.Bool.AllAny

namespace Gateway

open Account (Endpoint)

namespace Operation

-- What an operation asks of the Account Service.
def endpoint : Operation → Endpoint
  | applyTransaction event => .applyTransaction event.accountId
  | getBalance accountId   => .getBalance accountId
  | getAccount accountId   => .getAccount accountId

def accountId (operation : Operation) : Text :=
  operation.endpoint.accountId

def path : Operation → Text
  | applyTransaction event => transactionsPath event.accountId
  | getBalance accountId   => balancePath accountId
  | getAccount accountId   => accountPath accountId

theorem path_eq (operation : Operation) : operation.path = operation.endpoint.path := by
  cases operation
  case applyTransaction => exact List.append_assoc ..
  case getBalance       => exact List.append_assoc ..
  case getAccount a     => exact congrArg ("/accounts/".toList ++ ·) (List.append_nil a).symm

-- The characters around the account in a path.
theorem path_around (operation : Operation) : ∃ before after,
    operation.path = before ++ operation.accountId ++ after ∧
    (∀ c ∈ before ++ after, c ≠ '?' ∧ c ≠ '#' ∧ c ≠ '%' ∧ Url.isPrintable c) ∧
    ∀ c ∈ after.head?, Text.hexDigit c = none := by
  cases operation
  case applyTransaction =>
    exact ⟨_, _, rfl, List.all_iff_forall_prop.mp (by decide), by rintro c ⟨⟩; rfl⟩
  case getBalance =>
    exact ⟨_, _, rfl, List.all_iff_forall_prop.mp (by decide), by rintro c ⟨⟩; rfl⟩
  case getAccount =>
    exact ⟨_, [], (List.append_nil _).symm, List.all_iff_forall_prop.mp (by decide), nofun⟩

end Operation

variable {client : Client} {operation : Operation} {sent : Http.Request} {p : Text}

-- The path of an operation arrives at the endpoint that it asks for.
def Client.Reaches (client : Client) (operation : Operation) : Prop :=
  ∃ p, Url.encode client.rules operation.path = some p ∧
    Account.dispatch operation.endpoint.method (Url.unquote p) = .endpoint operation.endpoint

-- What an account must be like for the paths to carry it.
structure Client.Carries (client : Client) (operation : Operation) : Prop where
  nonempty : operation.accountId ≠ []
  segment : ∀ c ∈ operation.accountId, c ≠ '/' ∧ c ≠ '?' ∧ c ≠ '#' ∧ Url.isPrintable c
  no_dots : operation.accountId ≠ ".".toList ∧ operation.accountId ≠ "..".toList
  no_escape : Url.hasEscape operation.accountId = false
  length : operation.path.length ≤ client.rules.maxLength
  quoted_length : (Url.quote client.rules operation.path).length ≤ client.rules.maxLength

theorem Client.request_path (h : client.request operation = some sent) :
    sent.method = operation.endpoint.method ∧
    Url.encode client.rules operation.path = some sent.path := by
  cases operation
  case applyTransaction =>
    have hr := request_applyTransaction h
    exact ⟨hr.1, hr.2.2⟩
  case getBalance =>
    have hr := request_getBalance h
    exact ⟨hr.1, hr.2.2⟩
  case getAccount =>
    have hr := request_getAccount h
    exact ⟨hr.1, hr.2.2⟩

namespace Operation

theorem hasEscape_path (operation : Operation) :
    Url.hasEscape operation.path = Url.hasEscape operation.accountId := by
  obtain ⟨before, after, he, ha, hd⟩ := operation.path_around
  have hb : '%' ∉ before := fun h => (ha '%' (by simp [h])).2.2.1 rfl
  have ha : '%' ∉ after := fun h => (ha '%' (by simp [h])).2.2.1 rfl
  rw [he, List.append_assoc, Url.hasEscape_append_left hb, Url.hasEscape_append_right ha hd]

-- A character of a path is one of the account or one that never causes a problem.
theorem mem_path {c : Char} : c ∈ operation.path → c ∈ operation.accountId ∨
    (c ≠ '?' ∧ c ≠ '#' ∧ Url.isPrintable c) := by
  obtain ⟨before, after, he, ha, _⟩ := operation.path_around
  rw [he]
  simp only [List.mem_append] at ha ⊢
  intro h
  rcases h with (h | h) | h
  case inl.inl => exact .inr ⟨(ha c (.inl h)).1, (ha c (.inl h)).2.1, (ha c (.inl h)).2.2.2⟩
  case inl.inr => exact .inl h
  case inr     => exact .inr ⟨(ha c (.inr h)).1, (ha c (.inr h)).2.1, (ha c (.inr h)).2.2.2⟩

theorem mem_path_of_mem {c : Char} (h : c ∈ operation.accountId) : c ∈ operation.path := by
  obtain ⟨before, after, he, _⟩ := operation.path_around
  simp [he, h]

theorem accountId_mem_segments (operation : Operation) :
    operation.accountId ∈ operation.endpoint.segments := by
  simp [accountId, Endpoint.segments]

end Operation

namespace Client

theorem Carries.splitOn (h : client.Carries operation) :
    operation.path.splitOn '/' = operation.endpoint.segments := by
  rw [operation.path_eq]
  exact Endpoint.splitOn_path fun hm => (h.segment '/' hm).1 rfl

theorem Carries.plain (h : client.Carries operation) : Url.Plain operation.path where
  no_mark c hc := by
    rcases Operation.mem_path hc with hc | hc
    case inl => exact ⟨(h.segment c hc).2.1, (h.segment c hc).2.2.1⟩
    case inr => exact ⟨hc.1, hc.2.1⟩
  no_dots s hs := by
    have hd : Url.isDots operation.accountId = false := by simpa [Url.isDots] using h.no_dots
    rw [h.splitOn] at hs
    cases operation <;>
      simp only [Endpoint.segments, Operation.endpoint, Endpoint.rest, Endpoint.accountId,
        List.mem_cons, List.not_mem_nil, or_false] at hs
    case applyTransaction =>
      rcases hs with hs | hs | hs | hs <;> subst hs
      case inr.inr.inl => exact hd
      all_goals rfl
    case getBalance =>
      rcases hs with hs | hs | hs | hs <;> subst hs
      case inr.inr.inl => exact hd
      all_goals rfl
    case getAccount =>
      rcases hs with hs | hs | hs <;> subst hs
      case inr.inr => exact hd
      all_goals rfl
  no_escape := operation.hasEscape_path.trans h.no_escape

theorem Carries.encode (h : client.Carries operation) :
    ∃ p, Url.encode client.rules operation.path = some p := by
  refine Option.isSome_iff_exists.mp (Url.encode_isSome.mpr ⟨h.length, ?_, ?_⟩)
  case refine_1 =>
    refine List.all_eq_true.mpr fun c hc => ?_
    rcases Operation.mem_path hc with hc | hc
    case inl => exact (h.segment c hc).2.2.2
    case inr => exact hc.2.2
  case refine_2 =>
    rw [Url.path_of_no_mark h.plain.no_mark]
    exact h.quoted_length

theorem Carries.reaches (h : client.Carries operation) : client.Reaches operation := by
  obtain ⟨p, hp⟩ := h.encode
  refine ⟨p, hp, ?_⟩
  rw [h.plain.unquote_encode hp]
  exact Account.dispatch_of_segments h.splitOn h.nonempty

theorem Reaches.carries (h : client.Reaches operation) : client.Carries operation := by
  obtain ⟨p, hp, hd⟩ := h
  obtain ⟨hn, hs⟩ := Account.segments_of_dispatch hd
  have hl := Url.unquote_encode_length_le hp
  rw [← operation.path_eq] at hs
  have hs := hs.resolve_right (Nat.not_lt_of_le hl)
  have he : Url.unquote p = operation.path := by
    have hp : ['/'].intercalate ((Url.unquote p).splitOn '/') = Url.unquote p :=
      List.intercalate_splitOn '/'
    rw [← hp, hs, operation.path_eq, Endpoint.path]
  rw [he] at hs
  have hplain : Url.Plain operation.path := Url.plain_of_length_le hp (by rw [he])
  have hm : operation.accountId ∈ operation.path.splitOn '/' := by
    rw [hs]
    exact operation.accountId_mem_segments
  obtain ⟨hl, ha, hq⟩ := Url.encode_isSome.mp (Option.isSome_iff_exists.mpr ⟨p, hp⟩)
  have hdots := hplain.no_dots _ hm
  exact {
    nonempty := hn
    segment c hc := by
      have hc' := Operation.mem_path_of_mem hc
      refine ⟨fun he => Text.not_mem_of_mem_splitOn hm (he ▸ hc), (hplain.no_mark c hc').1,
        (hplain.no_mark c hc').2, List.all_eq_true.mp ha c hc'⟩
    no_dots := by simpa [Url.isDots] using hdots
    no_escape := operation.hasEscape_path.symm.trans hplain.no_escape
    length := hl
    quoted_length := by rwa [Url.path_of_no_mark hplain.no_mark] at hq
  }

-- An operation reaches its endpoint just if its account is one that a path carries.
theorem reaches_iff_carries (client : Client) (operation : Operation) :
    (client.Reaches operation ↔ client.Carries operation) ∧
    ∀ sent, client.request operation = some sent →
      (Account.dispatch sent.method (Url.unquote sent.path) = .endpoint operation.endpoint ↔
        client.Carries operation) := by
  refine ⟨⟨Reaches.carries, Carries.reaches⟩, fun sent hs => ?_⟩
  obtain ⟨hm, hp⟩ := request_path hs
  constructor
  case mp =>
    intro hd
    exact Reaches.carries ⟨sent.path, hp, hm ▸ hd⟩
  case mpr =>
    intro hc
    obtain ⟨p, hp', hd⟩ := hc.reaches
    rw [hm, Option.some.inj (hp.symm.trans hp')]
    exact hd

-- A balance is asked for, and the details of another account are read.
theorem not_reaches_of_query :
    (Url.encode Client.default.rules (balancePath "acct-123?x".toList)).map
      (fun p => Account.dispatch .get (Url.unquote p)) =
      some (.endpoint (.getAccount "acct-123".toList)) ∧
    ¬Client.default.Reaches (.getBalance "acct-123?x".toList) := by
  have hd : (Url.encode Client.default.rules (balancePath "acct-123?x".toList)).map
      (fun p => Account.dispatch .get (Url.unquote p)) =
      some (.endpoint (.getAccount "acct-123".toList)) := by decide +kernel
  refine ⟨hd, fun ⟨p, hp, he⟩ => ?_⟩
  change Url.encode Client.default.rules (balancePath "acct-123?x".toList) = some p at hp
  rw [hp, Option.map_some, Option.some_inj] at hd
  cases he.symm.trans hd

end Client

end Gateway
