import EventLedger.Account.Theorems.Reading
import EventLedger.Gateway.Theorems.Addressing
import EventLedger.Gateway.Theorems.Answers
import EventLedger.System.Theorems.Agreement

namespace System

open Http

open Gateway (Client Operation Outcome Sent)
open Account (Received Shows Transactions TransactionRow)

variable {client : Client} {s s' t u : State} {a : Action} {operation : Operation} {id : ℕ}
variable {content : Json} {m : Sent}

theorem Sound.received (h : Sound client s) : Received s.account.transactions := by
  intro row hr
  have ⟨now, q, _, he, hq⟩ := h.written row hr
  exact ⟨now, q, he, EventPayload.ofJson_body_stable hq⟩

theorem not_json_of_internalError {payload : Document} {status : ℕ} :
    Response.internalError ≠ { status, body := .json payload } := by
  intro h
  cases congrArg Response.body h

theorem json_of_render {doc payload : Document} {status : ℕ}
    (h : Response.render 200 doc = { status, body := .json payload }) :
    doc.val.isStandard ∧ doc = payload := by
  unfold Response.render at h
  split at h
  case isFalse   => cases congrArg Response.body h
  case isTrue hs => exact ⟨hs, Body.json.inj (congrArg Response.body h)⟩

-- The same read of another account.
def about (operation : Operation) (accountId : Text) : Operation :=
  match operation with
  | .applyTransaction event => .applyTransaction event
  | .getBalance _           => .getBalance accountId
  | .getAccount _           => .getAccount accountId

-- The account that the path of a request names to the Account Service.
def Leads (client : Client) (operation : Operation) (accountId : Text) : Prop :=
  ∃ request e, client.request operation = some request ∧
    Account.dispatch request.method (Url.unquote request.path) = .endpoint e ∧
    e.accountId = accountId

theorem Leads.eq_of_carries {accountId : Text} (h : Leads client operation accountId)
    (hc : client.Carries operation) : accountId = operation.accountId := by
  have ⟨request, e, hr, hd, ha⟩ := h
  have hd' := ((Client.reaches_iff_carries client operation).2 _ hr).mpr hc
  cases hd.symm.trans hd'
  exact ha.symm

theorem about_accountId (hr : operation.submits = false) :
    about operation operation.accountId = operation := by
  cases operation
  case applyTransaction => cases hr
  case getBalance       => rfl
  case getAccount       => rfl

-- What the Gateway makes of a balance is no account.
theorem account_of_balance {b : BalanceResponse} {payload : Document}
    (h : payload.val = .obj b.modelFields) :
    ∃ e, AccountDetailsResponse.ofJson payload = .error e := by
  obtain ⟨_, hw⟩ := payload
  subst h
  have hm : AccountDetailsResponse.recentTransactionsMember b.modelFields hw =
      .error (.field "recentTransactions".toList "missing".toList) := rfl
  simp only [AccountDetailsResponse.ofJson, hm]
  cases BalanceResponse.ofFields b.modelFields
  case error e => exact ⟨e, rfl⟩
  case ok      => exact ⟨_, rfl⟩

-- What the Gateway makes of an answer to a read shows the table, for the account that the path of
-- the request names.
theorem Sound.delivered_read (h : Sound client s) (hr : operation.submits = false)
    (hm : client.request operation = some m.request) {order : RowOrder TransactionRow} {now : Civil}
    {status : ℕ} {payload : Document}
    (he : (s.account.handle order now m.request).1 = { status, body := .json payload })
    (hlt : status < 400) (hp : (operation.readReply payload).content = some content) :
    ∃ accountId, Leads client operation accountId ∧
      Shows s.account.transactions (about operation accountId).endpoint content := by
  have hget : m.request.method = .get := by
    cases operation
    case applyTransaction => cases hr
    case getBalance       => exact (Client.request_getBalance hm).1
    case getAccount       => exact (Client.request_getAccount hm).1
  unfold Account.State.handle at he
  split at he
  case h_1 accountId hd => cases hget.symm.trans (Account.method_of_dispatch hd)
  case h_2 accountId hd =>
    refine ⟨accountId, ⟨_, _, hm, hd, rfl⟩, ?_⟩
    have ⟨doc, hdoc, hshow, hrel⟩ := (Account.getBalance_relays (s := s.account) h.account order
      accountId).resolve_left fun hi => not_json_of_internalError (hi.symm.trans he)
    have ⟨hs, hdp⟩ := json_of_render (hdoc.symm.trans he)
    subst hdp
    cases operation
    case applyTransaction => cases hr
    case getBalance =>
      have ⟨b, hb, hf⟩ := hrel hs
      simp only [Operation.readReply, hb, Gateway.Reply.content, Option.some.injEq] at hp
      rw [← hp, hf]
      exact hshow
    case getAccount =>
      generalize hv : doc.val = v at hshow
      cases hshow
      obtain ⟨e, hj⟩ := account_of_balance hv
      simp [Operation.readReply, hj, Gateway.Reply.content] at hp
  case h_3 accountId hd =>
    refine ⟨accountId, ⟨_, _, hm, hd, rfl⟩, ?_⟩
    obtain ⟨doc, hdoc, hshow, hrel⟩ := (Account.getAccount_relays (s := s.account) h.account
      h.received order accountId).resolve_left fun hi =>
        not_json_of_internalError (hi.symm.trans he)
    obtain ⟨hs, hdp⟩ := json_of_render (hdoc.symm.trans he)
    subst hdp
    obtain ⟨⟨d, hd, hf⟩, b, hb, hbal⟩ := hrel hs
    cases operation
    case applyTransaction => cases hr
    case getBalance =>
      simp only [Operation.readReply, hb, Gateway.Reply.content, Option.some.injEq] at hp
      exact hp ▸ hbal
    case getAccount =>
      simp only [Operation.readReply, hd, Gateway.Reply.content, Option.some.injEq] at hp
      rw [← hp, hf]
      exact hshow
  case h_4 => cases he; exact absurd hlt (by decide)
  case h_5 => cases congrArg Response.body he
  case h_6 => cases he; exact absurd hlt (by decide)

-- The content of a read is known when its handler has answered with it, or when a reply is under
-- way of which the handler makes it.
inductive Known (id : ℕ) (operation : Operation) (content : Json) (s : State) : Prop
  | answered {answer} : answer ∈ s.gateway.answers → answer.handler = id →
    answer.reply.status < 400 → answer.reply.content = some content → Known id operation content s
  | replied {reply status payload} : reply ∈ s.replies → reply.tag.handler = id →
    reply.response = { status, body := .json payload } → status < 400 →
    (operation.readReply payload).content = some content → Known id operation content s

-- A read that is under way.
structure Reading (client : Client) (id : ℕ) (operation : Operation) (s : State) : Prop where
  sound : Sound client s
  begun : s.gateway.begun[id]? = some operation

theorem Reading.step (h : Reading client id operation s)
    (hs : (machine client).step s a = some s') : Reading client id operation s' where
  sound := h.sound.step hs
  begun := by
    have hr : (machine client).runFrom s [a] = some s' := by simp [Machine.runFrom, hs]
    exact Gateway.State.begun_of_prefix (begun_grows hr) h.begun

-- The content of a read is learned from the table of the Account Service.
theorem Reading.learns (h : Reading client id operation s) (hr : operation.submits = false)
    (hs : (machine client).step s a = some s') (hk : Known id operation content s') :
    Known id operation content s ∨ ∃ accountId, Leads client operation accountId ∧
      Shows s.account.transactions (about operation accountId).endpoint content := by
  have hb := (h.step hs).begun
  cases State.step_moves hs
  case idle hi =>
    left
    cases hk
    case answered ha he hst hcon => exact .answered (hi.gateway ▸ ha) he hst hcon
    case replied ha he hresp hst hcon => exact .replied (hi.replies ha) he hresp hst hcon
  case deliver i order now m hm =>
    cases hk
    case answered ha he hst hcon => exact .inl (.answered ha he hst hcon)
    case replied reply status payload ha he hresp hst hcon =>
      cases List.mem_append.mp ha
      case inl ha => exact .inl (.replied ha he hresp hst hcon)
      case inr ha =>
        cases List.mem_singleton.mp ha
        have ⟨operation', ho, hreq⟩ := h.sound.requests m (List.mem_of_getElem? hm)
        have he : m.tag.handler = id := he
        rw [he, h.begun, Option.some_inj] at ho
        exact .inr (h.sound.delivered_read hr (ho ▸ hreq) hresp hst hcon)
  case turn ha ht =>
    left
    cases hk
    case replied hmem he hresp hst hcon => exact .replied (ht.replies hmem) he hresp hst hcon
    case answered answer hmem he hst hcon =>
      rcases Gateway.read_of_step h.sound.gateway ht.step hmem (he ▸ hb) hr hst with
        hmem | ⟨now, status, payload, hact, hlt, hreply⟩
      case inl => exact .answered hmem he hst hcon
      case inr =>
        subst hact
        cases a
        case receive i now' =>
          have ⟨reply, hrep, hsettle⟩ := Option.map_eq_some_iff.mp ha
          have ⟨hid, _, hresp⟩ := Gateway.Action.settle.inj hsettle
          refine .replied (List.mem_of_getElem? hrep) (hid.trans he) ?_ hlt (hreply ▸ hcon)
          exact Outcome.response.inj hresp
        all_goals cases ha

theorem Reading.of_begin (h : Sound client s)
    (hs : (machine client).step s (.begin operation) = some t) :
    Reading client s.gateway.begun.length operation t where
  sound := h.step hs
  begun := by simp [begun_begin hs]

-- Nothing is known of a read when it begins.
theorem not_known_of_begin (h : Sound client s) (hr : operation.submits = false)
    (hs : (machine client).step s (.begin operation) = some t) :
    ¬Known s.gateway.begun.length operation content t := by
  have hb := (Reading.of_begin h hs).begun
  intro hk
  cases State.step_moves hs
  case idle hn _ => cases hn
  case turn ha ht =>
    cases ha
    cases hk
    case replied hmem he _ _ _ => exact absurd he (h.replied _ (ht.replies hmem)).ne
    case answered answer hmem he hst _ =>
      cases Gateway.read_of_step h.gateway ht.step hmem (he ▸ hb) hr hst
      case inl hmem => exact absurd he (h.gateway.known answer hmem).ne
      case inr hn =>
        have ⟨_, _, _, ho, _⟩ := hn
        cases ho

-- A read that begins in one state and has been answered with success in another.
structure Reads (client : Client) (s : State) (operation : Operation) (as : List Action)
    (u : State) (content : Json) : Prop where
  carries : client.Carries operation
  reads : operation.submits = false
  run : (machine client).runFrom s (.begin operation :: as) = some u
  answered : ∃ answer ∈ u.gateway.answers, answer.handler = s.gateway.begun.length ∧
    answer.reply.status < 400 ∧ answer.reply.content = some content

-- A read shows a table that the Account Service has had in between.
theorem sometime_shows {as : List Action} {answer : Gateway.Answer} (h : Sound client s)
    (hr : operation.submits = false)
    (hrun : (machine client).runFrom s (.begin operation :: as) = some u)
    (ha : answer ∈ u.gateway.answers) (hi : answer.handler = s.gateway.begun.length)
    (hst : answer.reply.status < 400) (hcon : answer.reply.content = some content) :
    (machine client).Sometime (fun v => ∃ accountId, Leads client operation accountId ∧
      Shows v.account.transactions (about operation accountId).endpoint content) s
      (.begin operation :: as) := by
  have ⟨t, hs, hu⟩ := Machine.runFrom_cons hrun
  refine .cons hs (Machine.sometime_of_learned
    (I := Reading client s.gateway.begun.length operation)
    (K := Known s.gateway.begun.length operation content) ?_ ?_ ?_ ?_ hu
    (.answered ha hi hst hcon))
  case refine_1 => exact fun _ _ _ hv hs => hv.step hs
  case refine_2 => exact fun _ _ _ hv hs hk => hv.learns hr hs hk
  case refine_3 => exact .of_begin h hs
  case refine_4 => exact not_known_of_begin h hr hs

theorem Reads.sometime {as : List Action} (h : Sound client s)
    (hr : Reads client s operation as u content) : (machine client).Sometime
      (fun v => Shows v.account.transactions operation.endpoint content) s
      (.begin operation :: as) := by
  have ⟨answer, ha, hi, hst, hcon⟩ := hr.answered
  refine (sometime_shows h hr.reads hr.run ha hi hst hcon).imp fun v hv => ?_
  have ⟨accountId, hl, hshow⟩ := hv
  rwa [hl.eq_of_carries hr.carries, about_accountId hr.reads] at hshow

theorem transactions_extends {as : List Action} (h : (machine client).runFrom s as = some u) :
    s.account.transactions.Extends u.account.transactions := by
  refine Machine.runFrom_relation
    (R := fun s s' : State => s.account.transactions.Extends s'.account.transactions)
    (fun s => .refl _) (fun _ _ _ => .trans) (fun s a s' hs => ?_) h
  cases State.step_moves hs
  case turn ht => exact ht.account ▸ .refl _
  case deliver => exact s.account.handle_extends ..
  case idle hi => exact hi.transactions ▸ .refl _

-- What the Account Service has accepted, it has as a row.
theorem Sound.mirrored (h : Sound client s) {event : EventPayload} {now : Civil}
    (ha : Accepted client s.account.transactions event)
    (hs : (Json.obj event.metadata).isStandard) :
    ∃ r ∈ s.account.transactions.rows, Mirrors (Gateway.insertedRow now event) r := by
  have ⟨_, q, hq, ht⟩ := ha
  obtain ⟨r, hr, now', q', rfl, hq'⟩ := h.taken_row ht
  exact ⟨_, hr, mirrors_inserted hq hq' hs⟩

-- A table that has all that the Gateway has recorded in a state.
def Reflects (s : State) (t : Transactions) : Prop :=
  s.account.transactions.Extends t ∧
  ∀ g ∈ s.gateway.events.rows, HasStandard g → ∃ r ∈ t.rows, Mirrors g r

theorem Sound.reflects {as : List Action} (h : Sound client s)
    (hr : (machine client).runFrom s as = some u) : Reflects s u.account.transactions := by
  have he := transactions_extends hr
  refine ⟨he, fun g hg hst => ?_⟩
  obtain ⟨now, event, rfl, ha⟩ := h.recorded g hg
  exact (h.runFrom hr).mirrored (ha.extends he) (hasStandard_inserted.mp hst)

-- A read that is answered with success shows the table of the Account Service as it was at one
-- moment between the request and the answer, with all that the Gateway had recorded before.
theorem read_shows_moment {as : List Action} (h : (machine client).Reachable s)
    (hr : Reads client s operation as u content) : (machine client).Sometime
      (fun v => Shows v.account.transactions operation.endpoint content ∧
        Reflects s v.account.transactions) s (.begin operation :: as) := by
  have hs := Sound.of_reachable h
  have ⟨before, after, v, he, hv, hshow⟩ := hr.sometime hs
  exact ⟨before, after, v, he, hv, hshow, hs.reflects hv⟩

-- The actions by which the only request under way is answered.
def answering (now : Civil) : List Action :=
  [.deliver 0 .inserted now, .receive 0 now]

theorem carries_sample : Client.default.Carries (.getBalance EventPayload.sample.accountId) ∧
    Client.default.Carries (.getAccount EventPayload.sample.accountId) := by
  have hr : ∀ operation : Operation, ((Url.encode Client.default.rules operation.path).map
      fun p => Account.dispatch operation.endpoint.method (Url.unquote p)) =
        some (.endpoint operation.endpoint) → Client.default.Carries operation := by
    intro operation h
    have ⟨p, hp, hd⟩ := Option.map_eq_some_iff.mp h
    exact Client.Reaches.carries ⟨p, hp, hd⟩
  exact ⟨hr _ (by decide +kernel), hr _ (by decide +kernel)⟩

-- The handlers that have answered with a content, and the status.
def State.contents (s : State) : List (ℕ × ℕ) :=
  (s.gateway.answers.filter (·.reply.content.isSome)).map fun a => (a.handler, a.reply.status)

theorem Reads.of_contents {as : List Action} (hc : client.Carries operation)
    (hr : operation.submits = false)
    (h : (machine client).runFrom s (.begin operation :: as) = some u)
    (hu : (s.gateway.begun.length, 200) ∈ u.contents) :
    ∃ content, Reads client s operation as u content := by
  have ⟨answer, hm, he⟩ := List.mem_map.mp hu
  have ⟨hm, hcon⟩ := List.mem_filter.mp hm
  have ⟨content, hcon⟩ := Option.isSome_iff_exists.mp hcon
  have ⟨hi, hst⟩ := Prod.mk.inj he
  exact ⟨content, hc, hr, h, answer, hm, hi, by omega, hcon⟩

-- An event is recorded, and then its account is read twice.
theorem reads_sample : ∃ s t u content content', (machine .default).Reachable s ∧
    Reads .default s (.getBalance EventPayload.sample.accountId)
      (answering EventPayload.sample.eventTimestamp) t content ∧
    Reads .default t (.getAccount EventPayload.sample.accountId)
      (answering EventPayload.sample.eventTimestamp) u content' := by
  have hr : ((machine .default).run (recordingRun .sample)).bind (fun s =>
      ((machine .default).runFrom s (.begin (.getBalance EventPayload.sample.accountId) ::
        answering EventPayload.sample.eventTimestamp)).bind fun t =>
      ((machine .default).runFrom t (.begin (.getAccount EventPayload.sample.accountId) ::
        answering EventPayload.sample.eventTimestamp)).map fun u =>
      (s.gateway.begun.length, t.gateway.begun.length, t.contents, u.contents)) =
      some (1, 2, [(0, 201), (1, 200)], [(0, 201), (1, 200), (2, 200)]) := by decide +kernel
  have ⟨s, hs, hr⟩ := Option.bind_eq_some_iff.mp hr
  have ⟨t, ht, hr⟩ := Option.bind_eq_some_iff.mp hr
  have ⟨u, hu, hr⟩ := Option.map_eq_some_iff.mp hr
  simp only [Prod.mk.injEq] at hr
  have ⟨hbs, hbt, hct, hcu⟩ := hr
  have ⟨content, h⟩ := Reads.of_contents carries_sample.1 rfl ht (by simp [hbs, hct])
  have ⟨content', h'⟩ := Reads.of_contents carries_sample.2 rfl hu (by simp [hbt, hcu])
  exact ⟨s, t, u, content, content', ⟨_, hs⟩, h, h'⟩

theorem read_shows_moment_sample : ∃ s : State, ∃ as content, (machine .default).Sometime
    (fun v => Shows v.account.transactions (.getBalance EventPayload.sample.accountId) content ∧
      Reflects s v.account.transactions) s
    (.begin (.getBalance EventPayload.sample.accountId) :: as) := by
  have ⟨s, _, _, content, _, hs, hr, _⟩ := reads_sample
  exact ⟨s, _, content, read_shows_moment hs hr⟩

-- A read that begins after another has been answered shows the same table or a later one.
theorem reads_in_session {as bs : List Action} {operation' : Operation} {content' : Json}
    (h : (machine client).Reachable s) (hr : Reads client s operation as t content)
    (hr' : Reads client t operation' bs u content') : ∃ before after : Transactions,
      Shows before operation.endpoint content ∧ Shows after operation'.endpoint content' ∧
      before.Extends after ∧ Reflects t after := by
  have hs := Sound.of_reachable h
  have ht := hs.runFrom hr.run
  have ⟨_, _, v, _, hshow, hvt⟩ := (hr.sometime hs).split hr.run
  have ⟨_, _, w, htw, hshow', _⟩ := (hr'.sometime ht).split hr'.run
  have htw' := transactions_extends htw
  exact ⟨_, _, hshow, hshow', (transactions_extends hvt).trans htw', ht.reflects htw⟩

theorem reads_in_session_sample : ∃ t : State, ∃ before after content content',
    Shows before (.getBalance EventPayload.sample.accountId) content ∧
    Shows after (.getAccount EventPayload.sample.accountId) content' ∧
    before.Extends after ∧ Reflects t after := by
  have ⟨_, t, _, content, content', hs, hr, hr'⟩ := reads_sample
  have ⟨before, after, h⟩ := reads_in_session hs hr hr'
  exact ⟨t, before, after, content, content', h⟩

-- What a read has been answered with names the account whose state it shows, by its id without the
-- white space around it. That is the account to which the path of its request has led, whatever
-- account was asked for.
structure Labelled (client : Client) (s : State) (operation : Operation) (as : List Action)
    (content : Json) (accountId : Text) : Prop where
  leads : Leads client operation accountId
  names : ∃ fs, content = .obj fs ∧
    fs.lookup "accountId".toList = some (.str accountId.strip)
  shows : (machine client).Sometime
    (fun v => Shows v.account.transactions (about operation accountId).endpoint content) s
    (.begin operation :: as)

theorem about_endpoint (hr : operation.submits = false) (accountId : Text) :
    (about operation accountId).endpoint.accountId = accountId := by
  cases operation
  case applyTransaction => cases hr
  case getBalance       => rfl
  case getAccount       => rfl

theorem reads_labelled {as : List Action} {answer : Gateway.Answer}
    (h : (machine client).Reachable s) (hr : operation.submits = false)
    (hrun : (machine client).runFrom s (.begin operation :: as) = some u)
    (ha : answer ∈ u.gateway.answers) (hi : answer.handler = s.gateway.begun.length)
    (hst : answer.reply.status < 400) (hcon : answer.reply.content = some content) :
    ∃ accountId, Labelled client s operation as content accountId := by
  have ⟨before, after, v, he, hv, accountId, hl, hshow⟩ :=
    sometime_shows (Sound.of_reachable h) hr hrun ha hi hst hcon
  have ⟨fs, hfs, hname⟩ := hshow.names
  rw [about_endpoint hr] at hname
  exact ⟨accountId, hl, ⟨fs, hfs, hname⟩, before, after, v, he, hv, hshow⟩

-- An id that the path cuts off at its mark.
def markedId : Text :=
  EventPayload.sample.accountId ++ "?".toList

theorem reads_labelled_marked : ∃ s content, (machine .default).Reachable s ∧
    Labelled .default s (.getBalance markedId) (answering EventPayload.sample.eventTimestamp)
      content EventPayload.sample.accountId := by
  have hr : ((machine .default).run (recordingRun .sample)).bind (fun s =>
      ((machine .default).runFrom s (.begin (.getBalance markedId) ::
        answering EventPayload.sample.eventTimestamp)).map fun u =>
      (s.gateway.begun.length, u.contents)) = some (1, [(0, 201), (1, 200)]) := by decide +kernel
  have hd : ((Client.default.request (.getBalance markedId)).map fun request =>
      Account.dispatch request.method (Url.unquote request.path)) =
      some (.endpoint (.getAccount EventPayload.sample.accountId)) := by decide +kernel
  have ⟨s, hs, hr⟩ := Option.bind_eq_some_iff.mp hr
  have ⟨u, hu, hr⟩ := Option.map_eq_some_iff.mp hr
  have ⟨hb, hc⟩ := Prod.mk.inj hr
  have hm : (1, 200) ∈ u.contents := by simp [hc]
  have ⟨answer, hm, he⟩ := List.mem_map.mp hm
  have ⟨hm, hcon⟩ := List.mem_filter.mp hm
  have ⟨content, hcon⟩ := Option.isSome_iff_exists.mp hcon
  have ⟨hi, hst⟩ := Prod.mk.inj he
  have ⟨accountId, hl⟩ := reads_labelled ⟨_, hs⟩ rfl hu hm (hi.trans hb.symm) (by omega) hcon
  have ⟨request, e, hreq, hde, ha⟩ := hl.leads
  rw [hreq, Option.map_some, Option.some_inj, hde] at hd
  cases hd
  have ha : EventPayload.sample.accountId = accountId := ha
  exact ⟨s, content, ⟨_, hs⟩, ha ▸ hl⟩

end System
