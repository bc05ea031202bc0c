import Wdl.D1.Service

/-!
# What a retryable error says

An error that may be retried should mean that nothing has happened, and that nothing will. It does
when it is the answer of an actor or of a router: an actor that answers so has run no statement, and
a router that answers so has sent no request on, or has had such an answer itself. It does not when
the client makes the error because its connection to a router has failed, as the router may have
been sent the query before.

The nodes of a call form chains. A node is `Quiet` when it and all nodes after it have answered,
without having run anything; then they stay so.
-/

namespace Wdl.D1

open List Option

/-! ## The actor -/

namespace Sql

variable {α β : Type}

/-- The part does not run statements. -/
def Reads (p : Sql α) : Prop := ∀ s, (p s).2.applied = s.applied

/-- What the part throws never says that nothing has happened. -/
def Decided (p : Sql α) : Prop := ∀ s e, (p s).1 = .error e → ¬ e.Clean

/-- When the part throws an error that says that nothing has happened, it has run no statement. -/
def Guarded (p : Sql α) : Prop := ∀ s e, (p s).1 = .error e → e.Clean → (p s).2.applied = s.applied

variable {p : Sql α} {f : α → Sql β}

theorem bind_ok {s t : SqlState} {a : α} (h : p s = (.ok a, t)) :
    p.bind f s = f a t := by
  rw [bind, h]

variable {e : Thrown}

theorem bind_error {s t : SqlState} (h : p s = (.error e, t)) : p.bind f s = (.error e, t) := by
  rw [bind, h]

theorem Reads.ret (a : α) : (ret a).Reads := fun _ => rfl

theorem Reads.throw (e : Thrown) : (throw e : Sql α).Reads := fun _ => rfl

theorem Reads.ask (f : ℕ → α) : (ask f).Reads := fun _ => rfl

theorem Reads.bind (hp : p.Reads) (hf : ∀ a, (f a).Reads) :
    (p.bind f).Reads := by
  intro s
  have hs := hp s
  cases h : p s with
  | mk r t =>
    rw [h] at hs
    cases r with
    | ok a => rw [bind_ok h, hf a t, hs]
    | error e => rw [bind_error h, hs]

theorem Decided.ret (a : α) : (ret a).Decided := fun _ _ h => by cases h

theorem Decided.throw (he : ¬ e.Clean) : (throw e : Sql α).Decided := by
  rintro s e' h
  cases h
  exact he

theorem Decided.ask (f : ℕ → α) : (ask f).Decided := fun _ _ h => by cases h

theorem Decided.bind (hp : p.Decided) (hf : ∀ a, (f a).Decided) :
    (p.bind f).Decided := by
  intro s e he
  have hs := hp s
  cases h : p s with
  | mk r t =>
    rw [h] at hs
    cases r with
    | ok a =>
      rw [bind_ok h] at he
      exact hf a t e he
    | error e' =>
      rw [bind_error h] at he
      cases he
      exact hs e rfl

theorem Reads.guarded (h : p.Reads) : p.Guarded := fun s _ _ _ => h s

theorem Decided.guarded (h : p.Decided) : p.Guarded :=
  fun s e he hclean => absurd hclean (h s e he)

/-- What comes before a statement only reads. -/
theorem Guarded.bind_of_reads (hp : p.Reads) (hf : ∀ a, (f a).Guarded) :
    (p.bind f).Guarded := by
  intro s e he hclean
  have hs := hp s
  cases h : p s with
  | mk r t =>
    rw [h] at hs
    cases r with
    | ok a =>
      rw [bind_ok h] at he ⊢
      rw [hf a t e he hclean, hs]
    | error e' =>
      rw [bind_error h, hs]

/-- What comes after a statement does not say that nothing has happened. -/
theorem Guarded.bind_of_decided (hp : p.Guarded)
    (hf : ∀ a, (f a).Decided) : (p.bind f).Guarded := by
  intro s e he hclean
  have hs := hp s
  cases h : p s with
  | mk r t =>
    rw [h] at hs
    cases r with
    | ok a =>
      rw [bind_ok h] at he
      exact absurd hclean (hf a t e he)
    | error e' =>
      rw [bind_error h] at he ⊢
      cases he
      exact hs e rfl hclean

/-- A transaction that throws has run nothing. -/
theorem Guarded.transactionSync (p : Sql α) : (transactionSync p).Guarded := by
  intro s e he _
  rw [Sql.transactionSync] at he ⊢
  cases h : p s with
  | mk r t =>
    rw [h] at he
    cases r with
    | ok a => cases he
    | error e' => rfl

theorem Guarded.forEach {l : List β} {f : β → Sql Unit} (hl : l.length ≤ 1)
    (hf : ∀ b, (f b).Guarded) : (forEach l f).Guarded := by
  match l with
  | [] => exact (Reads.ret ()).guarded
  | [b] => exact (hf b).bind_of_decided fun _ => .ret ()
  | _ :: _ :: _ => exact absurd hl (by simp)

end Sql

variable {q : Query}

section Actor

open Sql

variable (w : Surroundings)

theorem reads_assertLeaseBudget (guard : Option ℕ) : (assertLeaseBudget w guard).Reads := by
  cases guard with
  | none => exact .ret ()
  | some deadlineMs =>
    refine .bind (.ask _) fun now => ?_
    split
    · exact .ret ()
    · exact .throw _

theorem reads_sqlExec : (sqlExec w).Reads := by
  refine .bind (.ask _) fun r => ?_
  cases r with
  | ok cursor => exact .ret cursor
  | error e => exact .throw _

theorem decided_sqlExec : (sqlExec w).Decided := by
  refine .bind (.ask _) fun r => ?_
  cases r with
  | ok cursor => exact .ret cursor
  | error e => exact .throw (Thrown.not_clean_error _ _)

theorem reads_toArray (cursor : Cursor) : cursor.toArray.Reads := by
  rw [Cursor.toArray]
  split
  · exact .ret _
  · exact .throw _

theorem decided_toArray (cursor : Cursor) : cursor.toArray.Decided := by
  rw [Cursor.toArray]
  split
  · exact .ret _
  · exact .throw (Thrown.not_clean_error _ _)

theorem reads_schemaObjectExists (guard : Option ℕ) : (schemaObjectExists w guard).Reads := by
  refine .bind (.ask _) fun known => ?_
  split
  · exact .ret _
  · exact .bind (reads_assertLeaseBudget w guard) fun _ => .bind (reads_sqlExec w) fun cursor =>
      .bind (reads_toArray cursor) fun _ => .ret _

theorem decided_schemaObjectExists : (schemaObjectExists w none).Decided := by
  refine .bind (.ask _) fun known => ?_
  split
  · exact .ret _
  · exact .bind (.ret ()) fun _ => .bind (decided_sqlExec w) fun cursor =>
      .bind (decided_toArray cursor) fun _ => .ret _

theorem not_clean_of_limitExceeded {e : D1ProtocolError} (h : e.code = .limitExceeded) :
    ¬ (Thrown.protocol e).Clean :=
  Thrown.not_clean_of_code h (by decide)

theorem decided_consumeResultBudget (bytes : ℕ) : (consumeResultBudget w bytes).Decided := by
  intro s e he
  rw [consumeResultBudget] at he
  split at he
  · cases he
    exact not_clean_of_limitExceeded rfl
  · cases he

theorem decided_readRows (rows : List ℕ) (count : ℕ) : (readRows w rows count).Decided := by
  induction rows generalizing count with
  | nil => exact .ret ()
  | cons row rows ih =>
    rw [readRows]
    split
    · exact .throw (not_clean_of_limitExceeded rfl)
    · exact .bind (decided_consumeResultBudget w row) fun _ => ih (count + 1)

theorem decided_resultFromCursor (cursor : Cursor) (mode : Mode) :
    (resultFromCursor w cursor mode).Decided := by
  rw [resultFromCursor]
  split
  · exact .ret ()
  · refine .bind (decided_consumeResultBudget w _) fun _ =>
      .bind (decided_readRows w _ _) fun _ => ?_
    split
    · exact .ret ()
    · exact .throw (Thrown.not_clean_error _ _)

theorem decided_statementChangedDb (changes : ℕ) (existed : Option Bool) :
    (statementChangedDb w changes existed).Decided := by
  unfold statementChangedDb
  split
  · exact .ret ()
  · split
    · exact .bind (decided_schemaObjectExists w) fun _ => .ret ()
    · exact .ret ()

theorem reads_existedBefore (statement : Statement) (guard : Option ℕ) :
    (existedBefore w statement guard).Reads := by
  rw [existedBefore]
  split
  · exact .bind (reads_schemaObjectExists w guard) fun _ => .ret _
  · exact .ret _

theorem guarded_checkedSqlExec (statement : Statement) (guard : Option ℕ) :
    (checkedSqlExec w statement guard).Guarded := by
  refine .bind_of_reads (reads_assertLeaseBudget w guard) fun _ => ?_
  exact Decided.guarded fun s => decided_sqlExec w _

/-- The budget is only checked before the statement is run. -/
theorem guarded_runStatement (statement : Statement) (mode : Mode) (guard : Option ℕ) :
    (runStatement w statement mode guard).Guarded := by
  refine .bind_of_reads (reads_existedBefore w statement guard) fun existed =>
    .bind_of_decided (guarded_checkedSqlExec w statement guard) fun cursor =>
      .bind (decided_resultFromCursor w cursor mode) fun _ => .bind ?_ fun _ =>
        decided_statementChangedDb w _ existed
  split
  · exact .bind (decided_sqlExec w) fun rowid => .bind (decided_toArray rowid) fun _ => .ret ()
  · exact .ret ()

theorem guarded_execStatements {statements : List Statement} (h : statements.length ≤ 1)
    (guard : Option ℕ) : (execStatements w statements guard).Guarded :=
  .forEach h fun statement => .bind_of_reads (reads_existedBefore w statement guard) fun existed =>
    .bind_of_decided (guarded_checkedSqlExec w statement guard) fun _ =>
      decided_statementChangedDb w 0 existed

/-- The query is run in a transaction, or has at most one statement. -/
def Query.Atomic (q : Query) : Prop := q.mode = .exec ∨ q.mode = .batch ∨ q.statements.length ≤ 1

theorem guarded_runQuery (h : q.Atomic) (guard : Option ℕ) :
    (runQuery w q.mode q.statements guard).Guarded := by
  unfold runQuery
  split
  next =>
    rw [execStatementsTransactionally]
    split
    next hlength => exact guarded_execStatements w hlength guard
    next => exact .transactionSync _
  next => exact .transactionSync _
  next mode hexec hbatch =>
    have hlength := (h.resolve_left hexec).resolve_left hbatch
    exact .forEach hlength fun statement => guarded_runStatement w statement _ guard

end Actor

theorem applied_eq_nil_of_actorFetch (h : q.Atomic) (a : ActorAnswers)
    (hclean : (actorFetch q.mode q.statements a).1.Clean) :
    (actorFetch q.mode q.statements a).2 = [] := by
  unfold actorFetch at hclean ⊢
  cases hunreadable : a.unreadable with
  | some err => rfl
  | none =>
    rw [hunreadable] at hclean
    cases hdraining : a.draining with
    | true => rfl
    | false =>
      rw [hdraining, if_neg Bool.false_ne_true] at hclean
      cases howner : a.ownership with
      | error err => rfl
      | ok guard =>
        rw [howner] at hclean
        dsimp only at hclean ⊢
        have hguarded := guarded_runQuery a.surroundings h guard
          ⟨[], 0, a.surroundings.maxResultBytes⟩
        cases hrun : runQuery a.surroundings q.mode q.statements guard
            ⟨[], 0, a.surroundings.maxResultBytes⟩ with
        | mk r t =>
          rw [hrun] at hclean hguarded
          cases r with
          | ok u =>
            obtain ⟨-, p, hbody, -⟩ := hclean
            cases hbody
          | error err => exact hguarded err rfl (clean_of_d1ErrorResponse hclean)

/-! ## Answers that are passed on -/

theorem not_clean_resultUnknownError (dbKey detail : String) :
    ¬ (resultUnknownError dbKey detail).Clean :=
  Thrown.not_clean_of_code (c := .resultUnknown) rfl (by decide)

theorem not_clean_invalidResponseError : ¬ invalidResponseError.Clean :=
  Thrown.not_clean_of_code (c := .invalidResponse) rfl (by decide)

variable {r : Response} {p : ErrorPayload}

theorem readD1QueryResponse_failure (h : readD1QueryResponse r = .ok (.failure p)) :
    r.d1Content = true ∧ r.body = .failure p := by
  unfold readD1QueryResponse at h
  split at h
  · cases h
  next hcontent =>
    split at h
    · cases h
    · split at h <;> cases h
    next => exact ⟨by simpa using hcontent, Except.ok.inj h⟩

theorem readD1QueryResponse_error {err : Thrown}
    (h : readD1QueryResponse r = .error err) : err = invalidResponseError := by
  unfold readD1QueryResponse at h
  split at h
  · exact (Except.error.inj h).symm
  · split at h
    · exact (Except.error.inj h).symm
    · split at h
      · cases h
      · exact (Except.error.inj h).symm
    · cases h

variable {arrival : Arrival}

/-- A router that has sent the query says that nothing has happened only if it was told so. -/
theorem clean_of_relay {dbKey : String} {target : Target} (h : (relay dbKey target arrival).Clean) :
    ∃ r, arrival = .reply r ∧ r.Clean := by
  cases arrival with
  | failed name message =>
    rw [relay] at h
    split at h
    · exact absurd (clean_of_d1ErrorResponse h) (not_clean_resultUnknownError _ _)
    · exact absurd (clean_of_d1ErrorResponse h) (Thrown.not_clean_error _ _)
  | reply r =>
    refine ⟨r, rfl, ?_⟩
    rw [relay] at h
    split at h
    · exact absurd (clean_of_d1ErrorResponse h) (not_clean_resultUnknownError _ _)
    · cases hread : readD1QueryResponse r with
      | error err =>
        rw [hread] at h
        rw [readD1QueryResponse_error hread] at h
        exact absurd (clean_of_d1ErrorResponse h) not_clean_invalidResponseError
      | ok body =>
        rw [hread] at h
        obtain ⟨-, p, hbody, hp⟩ := h
        obtain rfl : body = .failure p := hbody
        obtain ⟨hcontent, hfailure⟩ := readD1QueryResponse_failure hread
        exact ⟨hcontent, p, hfailure, hp⟩

theorem parseD1Payload_failure (h : parseD1Payload r = some (some p)) :
    r.d1Content = true ∧ r.body = .failure p := by
  unfold parseD1Payload at h
  split at h
  · cases h
  next hcontent =>
    split at h
    all_goals cases h
    next hbody => exact ⟨by simpa using hcontent, hbody⟩

variable {via : Via}

/-- The client sends the query again only if it was told that nothing has happened. -/
theorem clean_of_resend (h : sendQuery via arrival = .resend) :
    ∃ r, arrival = .reply r ∧ r.Clean := by
  cases arrival with
  | failed name message =>
    rw [sendQuery] at h
    split at h <;> cases h
  | reply r =>
    refine ⟨r, rfl, ?_⟩
    rw [sendQuery] at h
    split at h
    · cases h
    · cases hpayload : parseD1Payload r with
      | none =>
        rw [hpayload] at h
        cases h
      | some payload =>
        rw [hpayload] at h
        dsimp only at h
        split at h
        next hstale =>
          obtain ⟨-, p, rfl, hp⟩ := hstale
          obtain ⟨hcontent, hbody⟩ := parseD1Payload_failure hpayload
          exact ⟨hcontent, p, hbody, .inr hp⟩
        next => cases h

theorem retryable_throwD1TransportError {err : TransportError}
    (h : (throwD1TransportError err).retryable = true) :
    ∃ name message, err = .error name message ∧ isD1QueryTimeoutError name message = false := by
  cases err with
  | resultUnknown => cases h
  | error name message =>
    refine ⟨name, message, rfl, ?_⟩
    rw [throwD1TransportError] at h
    split at h
    · cases h
    next htimeout => exact Bool.eq_false_iff.2 htimeout

variable {e : D1Error}

theorem retryable_finish {payload : Option ErrorPayload} (h : finish r payload = .error e)
    (he : e.retryable = true) : ∃ p, payload = some p ∧ p.retryable = true := by
  cases payload with
  | some p =>
    cases h
    exact ⟨p, rfl, he⟩
  | none =>
    rw [finish] at h
    split at h
    · cases h
    · cases h
      cases he

/-- The error of the client may be retried only if it was told so, or if the connection to a router
    has failed. -/
theorem clean_of_done (h : sendQuery via arrival = .done (.error e)) (he : e.retryable = true) :
    (∃ r, arrival = .reply r ∧ r.Clean) ∨
      (via = .router ∧ ∃ name message, arrival = .failed name message ∧
        isD1QueryTimeoutError name message = false) := by
  cases arrival with
  | failed name message =>
    rw [sendQuery] at h
    split at h
    · cases h
      obtain ⟨_, _, herr, -⟩ := retryable_throwD1TransportError he
      cases herr
    next hvia =>
      cases h
      obtain ⟨_, _, herr, htimeout⟩ := retryable_throwD1TransportError he
      cases herr
      refine .inr ⟨?_, name, message, rfl, htimeout⟩
      cases via with
      | hint => exact absurd ⟨rfl, Bool.eq_false_iff.1 htimeout⟩ hvia
      | router => rfl
  | reply r =>
    refine .inl ⟨r, rfl, ?_⟩
    rw [sendQuery] at h
    split at h
    · cases h
      obtain ⟨_, _, herr, -⟩ := retryable_throwD1TransportError he
      cases herr
    · cases hpayload : parseD1Payload r with
      | none =>
        rw [hpayload] at h
        cases h
        obtain ⟨_, _, herr, -⟩ := retryable_throwD1TransportError he
        cases herr
      | some payload =>
        rw [hpayload] at h
        dsimp only at h
        split at h
        · cases h
        · obtain ⟨p, rfl, hp⟩ := retryable_finish (Decision.done.inj h) he
          obtain ⟨hcontent, hbody⟩ := parseD1Payload_failure hpayload
          exact ⟨hcontent, p, hbody, .inl hp⟩

/-! ## Quiet nodes -/

/-- The node and all nodes after it have answered, and have run nothing. -/
inductive Quiet (nodes : List Node) : ℕ → Prop
  | intro {n : ℕ} {node : Node} {r : Response} (hnode : nodes[n]? = some node)
      (hresponse : node.response = some r) (happlied : node.applied = [])
      (hchild : ∀ c, node.child = some c → Quiet nodes c) : Quiet nodes n

/-- Nodes are added and go on: those that have answered stay as they are, and what was sent on
    stays so. -/
structure Grows (nodes nodes' : List Node) : Prop where
  length : nodes.length ≤ nodes'.length
  answered : ∀ (n : ℕ) (node : Node) r, nodes[n]? = some node → node.response = some r →
    nodes'[n]? = some node
  child : ∀ (n : ℕ) (node : Node) c, nodes[n]? = some node → node.child = some c →
    ∃ node' : Node, nodes'[n]? = some node' ∧ node'.child = some c

theorem grows_addNode (nodes : List Node) (node : Node) (delivered : Bool) :
    Grows nodes (addNode nodes node delivered) := by
  have hsame : ∀ (n : ℕ) x, nodes[n]? = some x → (addNode nodes node delivered)[n]? = some x := by
    intro n x hn
    rw [addNode]
    split
    · rw [List.getElem?_append_left (List.getElem?_eq_some_iff.1 hn).1, hn]
    · exact hn
  refine ⟨?_, fun n x _ hn _ => hsame n x hn, fun n x _ hn hc => ⟨x, hsame n x hn, hc⟩⟩
  rw [addNode]
  split
  · rw [length_append]
    exact Nat.le_add_right _ _
  · exact le_rfl

variable {n : ℕ} {nodes : List Node}

theorem grows_set {old new : Node} (hn : nodes[n]? = some old)
    (hresponse : old.response = none) (hchild : ∀ c, old.child = some c → new.child = some c) :
    Grows nodes (nodes.set n new) := by
  have hlt := (List.getElem?_eq_some_iff.1 hn).1
  refine ⟨(length_set ..).ge, fun m node r hm hr => ?_, fun m node c hm hc => ?_⟩
  · have hne : n ≠ m := by
      rintro rfl
      cases hn.symm.trans hm
      cases hresponse.symm.trans hr
    rw [List.getElem?_set_ne hne, hm]
  · by_cases hnm : n = m
    · subst hnm
      cases hn.symm.trans hm
      exact ⟨new, List.getElem?_set_self hlt, hchild c hc⟩
    · exact ⟨node, by rw [List.getElem?_set_ne hnm, hm], hc⟩

theorem Quiet.mono {nodes' : List Node} (hgrows : Grows nodes nodes') (h : Quiet nodes n) :
    Quiet nodes' n := by
  induction h with
  | intro hnode hresponse happlied _ ih =>
    exact .intro (hgrows.answered _ _ _ hnode hresponse) hresponse happlied ih

/-! ## The invariant -/

/-- What is known of the requests of the client. -/
def ClientInv (s : State) : Prop :=
  match s.client with
  | .idle => s.sent = []
  | .waiting _ node => ∀ n ∈ s.sent, node = some n ∨ Quiet s.nodes n
  | .done (.error e) => e.retryable = true → ∀ n ∈ s.sent, Quiet s.nodes n
  | .done (.ok _) => True

structure Inv (s : State) : Prop where
  /-- Each node was sent by the client or by a node before it. -/
  covered : ∀ n < s.nodes.length, n ∈ s.sent ∨
    ∃ (m : ℕ) (node : Node), m < n ∧ s.nodes[m]? = some node ∧ node.child = some n
  /-- An answer that says that nothing has happened is right. -/
  clean : ∀ (n : ℕ) (node : Node) r, s.nodes[n]? = some node → node.response = some r → r.Clean →
    Quiet s.nodes n
  client : ClientInv s

theorem Inv.start : Inv ⟨.idle, [], []⟩ :=
  ⟨fun n hn => absurd hn (Nat.not_lt_zero n), fun n node r hn => absurd hn (by simp), rfl⟩

variable {s : State}

theorem Inv.quiet (h : Inv s) (hsent : ∀ n ∈ s.sent, Quiet s.nodes n) (hn : n < s.nodes.length) :
    Quiet s.nodes n := by
  induction n using Nat.strong_induction_on with
  | _ n ih =>
    rcases h.covered n hn with hmem | ⟨m, node, hm, hnode, hchild⟩
    · exact hsent n hmem
    · obtain ⟨hnode', -, -, hquiet⟩ := ih m hm (hm.trans hn)
      cases hnode.symm.trans hnode'
      exact hquiet n hchild

variable {transport : Transport} {node : Option ℕ}

/-- A response that is delivered and says that nothing has happened is the one of a quiet node. -/
theorem Inv.quiet_of_arrival (h : Inv s) (ha : transport.arrival s.nodes node = some (.reply r))
    (hr : r.Clean) : ∃ n, node = some n ∧ Quiet s.nodes n := by
  cases transport with
  | deliver =>
    obtain ⟨r', hr', heq⟩ := map_eq_some_iff.1 ha
    obtain rfl := Arrival.reply.inj heq
    obtain ⟨n, rfl, hn⟩ := bind_eq_some_iff.1 hr'
    obtain ⟨x, hx, hresponse⟩ := bind_eq_some_iff.1 hn
    exact ⟨n, rfl, h.clean n x r' hx hresponse hr⟩
  | garble r' =>
    rw [Transport.arrival] at ha
    split at ha
    next hgarbled =>
      cases ha
      exact absurd hr hgarbled.not_clean
    next => cases ha
  | fail name message => cases ha

theorem ClientInv.mono (h : ClientInv s) (hgrows : Grows s.nodes nodes) :
    ClientInv { s with nodes } := by
  unfold ClientInv at h ⊢
  cases hclient : s.client with
  | idle =>
    rw [hclient] at h
    exact h
  | waiting via node =>
    rw [hclient] at h
    exact fun n hn => (h n hn).imp_right (.mono hgrows)
  | done outcome =>
    rw [hclient] at h
    cases outcome with
    | ok u => trivial
    | error e => exact fun he n hn => (h he n hn).mono hgrows

/-- One node goes on. -/
theorem Inv.set (h : Inv s) {old new : Node} (hn : s.nodes[n]? = some old)
    (hresponse : old.response = none) (hchild : ∀ c, old.child = some c → new.child = some c)
    (hclean : ∀ r, new.response = some r → r.Clean → Quiet (s.nodes.set n new) n) :
    Inv { s with nodes := s.nodes.set n new } := by
  have hgrows := grows_set hn hresponse hchild
  refine ⟨fun m hm => ?_, fun m node r hm hr hc => ?_, h.client.mono hgrows⟩
  · rw [length_set] at hm
    refine (h.covered m hm).imp_right ?_
    rintro ⟨k, node, hk, hnode, hc⟩
    obtain ⟨node', hnode', hc'⟩ := hgrows.child k node m hnode hc
    exact ⟨k, node', hk, hnode', hc'⟩
  · by_cases hnm : n = m
    · subst hnm
      obtain rfl : new = node := by
        have hlt := (List.getElem?_eq_some_iff.1 hn).1
        rw [List.getElem?_set_self hlt] at hm
        exact Option.some.inj hm
      exact hclean r hr hc
    · have hm' : s.nodes[m]? = some node := by rwa [List.getElem?_set_ne hnm] at hm
      exact (h.clean m node r hm' hr hc).mono hgrows

variable {delivered : Bool}

/-- A request is sent, by the client or by a node that waits for it. -/
theorem Inv.addNode (h : Inv s) {new : Node} {client : ClientPhase}
    {sent : List ℕ} (hresponse : new.response = none) (hsent : ∀ n ∈ s.sent, n ∈ sent)
    (hnew : delivered = true → s.nodes.length ∈ sent ∨ ∃ (m : ℕ) (node : Node),
      m < s.nodes.length ∧ s.nodes[m]? = some node ∧ node.child = some s.nodes.length)
    (hclient : ClientInv ⟨client, sent, D1.addNode s.nodes new delivered⟩) :
    Inv ⟨client, sent, D1.addNode s.nodes new delivered⟩ := by
  have hgrows := grows_addNode s.nodes new delivered
  have hold : ∀ (n : ℕ) node, (D1.addNode s.nodes new delivered)[n]? = some node →
      s.nodes[n]? = some node ∨ (delivered = true ∧ n = s.nodes.length ∧ node = new) := by
    intro n node hn
    rw [D1.addNode] at hn
    split at hn
    next hdelivered =>
      by_cases hlt : n < s.nodes.length
      · rw [List.getElem?_append_left hlt] at hn
        exact .inl hn
      · have hle := (List.getElem?_eq_some_iff.1 hn).1
        rw [length_append, length_singleton] at hle
        obtain rfl : n = s.nodes.length := by omega
        rw [List.getElem?_concat_length] at hn
        exact .inr ⟨hdelivered, rfl, (Option.some.inj hn).symm⟩
    next => exact .inl hn
  refine ⟨fun n hn => ?_, fun n node r hn hr hc => ?_, hclient⟩
  · obtain ⟨node, hnode⟩ : ∃ node, (D1.addNode s.nodes new delivered)[n]? = some node :=
      ⟨_, List.getElem?_eq_getElem hn⟩
    have hlift : ∀ m k : ℕ, (∃ node : Node, s.nodes[m]? = some node ∧ node.child = some k) →
        ∃ node : Node, (D1.addNode s.nodes new delivered)[m]? = some node ∧
          node.child = some k := by
      rintro m k ⟨x, hx, hk⟩
      exact hgrows.child m x k hx hk
    rcases hold n node hnode with hn' | ⟨hdelivered, rfl, -⟩
    · rcases h.covered n (List.getElem?_eq_some_iff.1 hn').1 with hmem | ⟨m, x, hm, hx, hchild⟩
      · exact .inl (hsent n hmem)
      · obtain ⟨x', hx', hchild'⟩ := hlift m n ⟨x, hx, hchild⟩
        exact .inr ⟨m, x', hm, hx', hchild'⟩
    · rcases hnew hdelivered with hmem | ⟨m, x, hm, hx, hchild⟩
      · exact .inl hmem
      · obtain ⟨x', hx', hchild'⟩ := hlift m _ ⟨x, hx, hchild⟩
        exact .inr ⟨m, x', hm, hx', hchild'⟩
  · rcases hold n node hn with hn' | ⟨-, -, rfl⟩
    · exact (h.clean n node r hn' hr hc).mono hgrows
    · cases hresponse.symm.trans hr

/-! ## Steps -/

/-- The client sends the query while its earlier requests are quiet. -/
theorem Inv.send (h : Inv s) (hsent : ∀ n ∈ s.sent, Quiet s.nodes n) (via : Via)
    (delivered : Bool) : Inv (s.send via delivered) := by
  refine h.addNode rfl (fun n hn => mem_append_left _ hn) (fun hdelivered => .inl ?_) ?_
  · rw [hdelivered]
    exact mem_append_right _ (by simp [newNode])
  · intro n hn
    rcases mem_append.1 hn with hn | hn
    · exact .inr ((hsent n hn).mono (grows_addNode _ _ _))
    · exact .inl (mem_toList.1 hn)

/-- While the client waits for a request that is quiet, all its requests are. -/
theorem Inv.quiet_of_waiting (h : Inv s) (hclient : s.client = .waiting via node)
    (hquiet : ∀ n, node = some n → Quiet s.nodes n) : ∀ n ∈ s.sent, Quiet s.nodes n := by
  have hinv := h.client
  rw [ClientInv, hclient] at hinv
  exact fun n hn => (hinv n hn).elim (hquiet n) id

/-- The client waits for a router that it was not hinted to, which was delivered the query. -/
def ClientPhase.atRouter : ClientPhase → Bool
  | .waiting .router (some _) => true
  | _ => false

/-- The connection to a router does not fail after the query was delivered, unless the client does
    not want to wait any longer. -/
def RouterConnectionKept (s : State) : Event → Prop
  | .clientArrival (.fail name message) _ =>
    s.client.atRouter = true → isD1QueryTimeoutError name message = true
  | _ => True

instance (s : State) (e : Event) : Decidable (RouterConnectionKept s e) :=
  match e with
  | .clientArrival (.fail name message) _ =>
    inferInstanceAs
      (Decidable (s.client.atRouter = true → isD1QueryTimeoutError name message = true))
  | .clientArrival .deliver _ => .isTrue trivial
  | .clientArrival (.garble _) _ => .isTrue trivial
  | .start _ _ => .isTrue trivial
  | .route _ _ _ => .isTrue trivial
  | .routerArrival _ _ => .isTrue trivial
  | .act _ _ => .isTrue trivial

variable {t : State}

theorem Inv.clientArrival (h : Inv s)
    (hkept : RouterConnectionKept s (.clientArrival transport delivered))
    (hs : next q s (.clientArrival transport delivered) = some t) : Inv t := by
  rw [next] at hs
  split at hs
  next via node hclient =>
    obtain ⟨arrival, harrival, hs⟩ := map_eq_some_iff.1 hs
    subst hs
    have hreply : ∀ r, arrival = .reply r → r.Clean → ∀ n ∈ s.sent, Quiet s.nodes n := by
      rintro r rfl hr
      obtain ⟨n, rfl, hquiet⟩ := h.quiet_of_arrival harrival hr
      exact h.quiet_of_waiting hclient fun m hm => Option.some.inj hm ▸ hquiet
    cases hdecision : sendQuery via arrival with
    | resend =>
      obtain ⟨r, hr, hclean⟩ := clean_of_resend hdecision
      exact h.send (hreply r hr hclean) .router delivered
    | done outcome =>
      refine ⟨h.covered, h.clean, ?_⟩
      cases outcome with
      | ok u => trivial
      | error e =>
        intro he
        rcases clean_of_done hdecision he with ⟨r, hr, hclean⟩ | ⟨rfl, name, message, rfl, htimeout⟩
        · exact hreply r hr hclean
        · -- the connection to a router has failed: the query was not delivered
          have hfail : transport = .fail name message := by
            cases transport with
            | deliver =>
              obtain ⟨r, -, heq⟩ := map_eq_some_iff.1 harrival
              cases heq
            | garble r =>
              rw [Transport.arrival] at harrival
              split at harrival <;> cases harrival
            | fail name' message' =>
              cases harrival
              rfl
          subst hfail
          refine h.quiet_of_waiting hclient fun n hn => ?_
          have hrouter : s.client.atRouter = true := by rw [hclient, hn]; rfl
          cases (hkept hrouter).symm.trans htimeout
  next => cases hs

theorem Inv.route (h : Inv s) {a : RouterAnswers} (hs : next q s (.route n a delivered) = some t) :
    Inv t := by
  rw [next] at hs
  split at hs
  next hop hn =>
    obtain ⟨x, hx, hs⟩ := map_eq_some_iff.1 hs
    subst hs
    have hlt := (List.getElem?_eq_some_iff.1 hn).1
    cases x with
    | inl r =>
      -- it has sent nothing on
      refine h.set hn rfl nofun fun r' _ _ => ?_
      exact .intro (List.getElem?_set_self hlt) rfl rfl nofun
    | inr target =>
      let waiting : Node := .router hop (.waiting target (newNode s.nodes delivered))
      have hset : Inv { s with nodes := s.nodes.set n waiting } :=
        h.set hn rfl (fun c hc => by cases hc) fun r hr => by cases hr
      have hlength : (s.nodes.set n waiting).length = s.nodes.length := length_set ..
      refine hset.addNode (by cases target <;> rfl) (fun m hm => hm) (fun hdelivered => .inr ?_)
        (hset.client.mono (grows_addNode _ _ _))
      refine ⟨n, _, ?_, List.getElem?_set_self hlt, ?_⟩
      · rwa [hlength]
      · show newNode s.nodes delivered = _
        rw [hlength, hdelivered]
        rfl
  next => cases hs

theorem Inv.routerArrival (h : Inv s) (hs : next q s (.routerArrival n transport) = some t) :
    Inv t := by
  rw [next] at hs
  split at hs
  next hop target child hn =>
    obtain ⟨arrival, harrival, hs⟩ := map_eq_some_iff.1 hs
    subst hs
    have hlt := (List.getElem?_eq_some_iff.1 hn).1
    refine h.set hn rfl (fun c hc => hc) fun r hr hclean => ?_
    cases hr
    obtain ⟨r', rfl, hr'⟩ := clean_of_relay hclean
    obtain ⟨c, rfl, hquiet⟩ := h.quiet_of_arrival harrival hr'
    have hgrows : Grows s.nodes (s.nodes.set n
        (.router hop (.answered (relay q.dbKey target (.reply r')) (some c)))) :=
      grows_set hn rfl fun c hc => hc
    refine .intro (List.getElem?_set_self hlt) rfl rfl fun c' hc' => ?_
    obtain rfl : c = c' := Option.some.inj hc'
    exact hquiet.mono hgrows
  next => cases hs

theorem Inv.act (h : Inv s) (hq : q.Atomic) {a : ActorAnswers}
    (hs : next q s (.act n a) = some t) : Inv t := by
  rw [next] at hs
  split at hs
  next hn =>
    cases hs
    have hlt := (List.getElem?_eq_some_iff.1 hn).1
    refine h.set hn rfl nofun fun r hr hclean => ?_
    cases hr
    exact .intro (List.getElem?_set_self hlt) rfl (applied_eq_nil_of_actorFetch hq a hclean)
      nofun
  next => cases hs

theorem Inv.next (h : Inv s) (hq : q.Atomic) {e : Event}
    (hkept : RouterConnectionKept s e) (hs : D1.next q s e = some t) : Inv t := by
  cases e with
  | start via delivered =>
    rw [D1.next] at hs
    split at hs
    next hclient =>
      cases hs
      have hinv := h.client
      rw [ClientInv, hclient] at hinv
      refine h.send (fun n hn => ?_) via delivered
      rw [hinv] at hn
      cases hn
    next => cases hs
  | clientArrival transport delivered => exact h.clientArrival hkept hs
  | route n a delivered => exact h.route hs
  | routerArrival n transport => exact h.routerArrival hs
  | act n a => exact h.act hq hs

/-! ## Runs -/

theorem inv_of_run (hq : q.Atomic) {es : List Event}
    (hkept : (d1Call q).MeetsFrom RouterConnectionKept (d1Call q).start es)
    (h : (d1Call q).run es = some s) : Inv s := by
  refine Machine.runFrom_induction_of_meets (P := Inv) ?_ hkept h .start
  exact fun m e t hm hC hs => hm.next hq hC hs

theorem Quiet.response (h : Quiet nodes n) {node : Node}
    (hnode : nodes[n]? = some node) : node.response ≠ none := by
  obtain ⟨hnode', hresponse, -, -⟩ := h
  cases hnode.symm.trans hnode'
  rw [hresponse]
  exact some_ne_none _

/-- When the client is done and all nodes are quiet, nothing happens any more. -/
theorem next_eq_none {outcome : Except D1Error Unit} (hclient : s.client = .done outcome)
    (hquiet : ∀ n < s.nodes.length, Quiet s.nodes n) (e : Event) :
    next q s e = none := by
  have hanswered : ∀ (n : ℕ) (node : Node), s.nodes[n]? = some node → node.response ≠ none :=
    fun n node hnode => (hquiet n (List.getElem?_eq_some_iff.1 hnode).1).response hnode
  cases e with
  | start | clientArrival => rw [next, hclient]
  | route n a delivered =>
    rw [next]
    split
    next hop hn => exact absurd rfl (hanswered n _ hn)
    next => rfl
  | routerArrival n transport =>
    rw [next]
    split
    next hop target child hn => exact absurd rfl (hanswered n _ hn)
    next => rfl
  | act n a =>
    rw [next]
    split
    next hn => exact absurd rfl (hanswered n _ hn)
    next => rfl

/-- **A retryable error means that nothing has happened**, and that nothing will: no statement of
    the call has been run, and none is run later, provided that the connection to a router has not
    failed after the query was delivered, and that the query is run in a transaction or has at most
    one statement. -/
theorem retryable_means_nothing_happened {q : Query} (hq : q.Atomic) {es : List Event} {s : State}
    (hkept : (d1Call q).MeetsFrom RouterConnectionKept (d1Call q).start es)
    (h : (d1Call q).run es = some s) {e : D1Error} (hclient : s.client = .done (.error e))
    (he : e.retryable = true) {fs : List Event} {t : State}
    (hlater : (d1Call q).runFrom s fs = some t) :
    ∀ node ∈ t.nodes, node.applied = [] := by
  have hinv := inv_of_run hq hkept h
  have hsent : ∀ n ∈ s.sent, Quiet s.nodes n := by
    have hc := hinv.client
    rw [ClientInv, hclient] at hc
    exact hc he
  have hquiet : ∀ n < s.nodes.length, Quiet s.nodes n := fun n hn => hinv.quiet hsent hn
  have hstays : t = s := by
    cases fs with
    | nil => exact (Option.some.inj hlater).symm
    | cons f fs =>
      obtain ⟨m, hm, -⟩ := Machine.runFrom_cons_iff.1 hlater
      cases (show (d1Call q).next s f = none from next_eq_none hclient hquiet f).symm.trans hm
  subst hstays
  intro node hnode
  obtain ⟨n, hn⟩ := List.getElem?_of_mem hnode
  obtain ⟨hnode', -, happlied, -⟩ := hquiet n (List.getElem?_eq_some_iff.1 hn).1
  cases hn.symm.trans hnode'
  exact happlied

/-- Surroundings in which every statement writes a row, and time passes while it does. -/
def writing : Surroundings where
  now n := n
  exec _ := .ok ⟨0, [], none, 1⟩
  memo _ := false
  idempotentDdl _ := false
  maxResultRows := 10
  maxResultBytes := 1000

/-- A router that owns the database. -/
def routedLocally : RouterAnswers :=
  ⟨none, .ok ⟨"task-1", .valid⟩, .ok "task-1", false, true, []⟩

/-- A router whose task is draining. -/
def routedDraining : RouterAnswers :=
  ⟨none, .error taskDrainingError, .ok "task-1", false, true, []⟩

def insertion : Statement := ⟨"insert into t values (1)", []⟩

/-- The client was hinted to a router that is draining, and then does not reach any. -/
theorem retryable_means_nothing_happened_draining :
    ∃ s, (d1Call ⟨"acme:main", .run, [insertion]⟩).run
      [.start .hint true, .route 0 routedDraining false,
        .clientArrival .deliver false, .clientArrival (.fail "Error" "connection refused") false] =
          some s ∧ s.client = .done (.error (d1Error d1BackendUnavailablePayload)) ∧
      ∀ node ∈ s.nodes, node.applied = [] := by
  let q : Query := ⟨"acme:main", .run, [insertion]⟩
  let s : State := ⟨.done (.error (d1Error d1BackendUnavailablePayload)), [0],
    [.router 0 (.answered (d1ErrorResponse taskDrainingError) none)]⟩
  let es : List Event := [.start .hint true, .route 0 routedDraining false,
    .clientArrival .deliver false, .clientArrival (.fail "Error" "connection refused") false]
  have hatomic : q.Atomic := .inr (.inr (by decide))
  have hrun : (d1Call q).run es = some s := by decide +kernel
  have hkept : (d1Call q).MeetsFrom RouterConnectionKept (d1Call q).start es := by decide +kernel
  have hlater : (d1Call q).runFrom s [] = some s := rfl
  exact ⟨s, hrun, rfl, retryable_means_nothing_happened hatomic hkept hrun rfl rfl hlater⟩

/-- A response is lost on its way from the router: the error may be retried, but the statement was
    run. -/
theorem lost_response_is_retryable :
    ∃ s, (d1Call ⟨"acme:main", .run, [insertion]⟩).run
      [.start .router true, .route 0 routedLocally true,
        .act 1 ⟨none, false, .ok (some 5), writing⟩, .routerArrival 0 .deliver,
        .clientArrival (.fail "Error" "Network connection lost.") false] = some s ∧
      s.client = .done (.error (d1Error d1BackendUnavailablePayload)) ∧
      (d1Error d1BackendUnavailablePayload).retryable = true ∧
      ∃ node ∈ s.nodes, node.applied = [insertion] := by
  refine ⟨⟨.done (.error (d1Error d1BackendUnavailablePayload)), [0],
    [.router 0 (.answered d1QuerySuccessResponse (some 1)),
      .actor (.answered d1QuerySuccessResponse [insertion])]⟩, by decide +kernel, rfl, rfl,
    .actor (.answered d1QuerySuccessResponse [insertion]), by simp, rfl⟩

/-- Without a transaction, the budget of the lease may run out after the first statement. -/
example : actorFetch .run [insertion, insertion] ⟨none, false, .ok (some 2), writing⟩ =
    (d1ErrorResponse leaseBudgetError, [insertion]) := by
  decide +kernel

end Wdl.D1
