import Wdl.Auth.Commits

/-!
# The calls of the auth service among each other

Everything that a call does to the store is a `Change` (`body_safe`), and what it answers is
backed by the log: a token is accepted after a lookup that found it neither revoked nor expired
(`Accepted`), and a call that answers that it revoked a token did so.

`relyGuarantee` puts the calls together.
-/

namespace Wdl.Auth

open Session (Ensures Commits)

variable {α β : Type} {i : ℕ} {configured : Option Token}

/-- What a process knows of the store: the invariant, and what the others keep. -/
structure Stable (i : ℕ) (A : Db → Prop) : Prop where
  inv : ∀ a, A a → Inv a
  rely : ∀ a b, A a → Rely i a b → A b

theorem Stable.base (i : ℕ) : Stable i (Base i) := ⟨fun _ h => h.1, fun _ _ h hab => h.rely hab⟩

theorem Stable.ofInv (i : ℕ) : Stable i Inv := ⟨fun _ h => h, fun _ _ h hab => hab.inv h⟩

/-- From `A` on, everything that the process does to the store is a `Change`, and `B` holds
    of what it returns. -/
def Safe (i : ℕ) (configured : Option Token) (A : Db → Prop) (B : α → Db → Prop) (p : AuthM α) :
    Prop :=
  p.SafeFrom (Request.Step Command.Step) (Shared.Moves i (Rely i))
    (Shared.Guar i (Change i configured)) (fun r s => Finishes B (fun _ => Inv) r s.db)
    (fun s => A s.db)

/-! ## Rules -/

section Rules

variable {A A' : Db → Prop} {B B' : α → Db → Prop} {C : β → Db → Prop} {p : AuthM α}
  {f : α → AuthM β}

theorem Safe.bind (hp : Safe i configured A B p)
    (hf : ∀ a, Safe i configured (B a) C (f a)) : Safe i configured A C (p >>= f) := by
  intro s hs
  refine .bind (.refl (.refl i)) ((hp s hs).mono fun r t h => ?_)
  cases r with
  | ok a => exact hf a t h
  | error e => exact h

theorem Safe.of (hp : Safe i configured A B p) (h : ∀ db, A' db → A db) :
    Safe i configured A' B p := Prog.SafeFrom.mono hp fun s hs => h s.db hs

theorem Safe.mono (hp : Safe i configured A B p) (h : ∀ a db, B a db → B' a db) :
    Safe i configured A B' p := by
  refine fun s hs => (hp s hs).mono fun r t hr => ?_
  cases r with
  | ok a => exact h a t.db hr
  | error e => exact hr

theorem Safe.ret (hA : Stable i A) {a : α} (h : ∀ db, A db → B a db) :
    Safe i configured A B (.ret a) :=
  Prog.SafeFrom.ret (fun _ _ hs hst => hA.rely _ _ hs hst.db) fun _ hs => h _ hs

theorem Safe.fail (hA : Stable i A) {e : Failure} : Safe i configured A B (.fail e) :=
  Prog.SafeFrom.fail (fun _ _ hs hst => hA.rely _ _ hs hst.db) fun _ hs => hA.inv _ hs

/-- A read, of which nothing is remembered but what the process knows of what it reads. -/
theorem Safe.readPlain (hA : Stable i A) {k : Key} {f : k.Val → AuthM β} {N : k.Val → Db → Prop}
    (hN : ∀ db, A db → N (keyed.get db k) db) (hf : ∀ v, Safe i configured (N v) C (f v)) :
    Safe i configured A C (readPlain k >>= f) :=
  Prog.SafeFrom.read (fun _ => .stay) hA.rely hN hf

/-- A command is a change. -/
theorem Safe.command (hA : Stable i A) {c : Command} {f : Command.interface.Ans c → AuthM β}
    {N : Command.interface.Ans c → Db → Prop}
    (hchange : ∀ db, A db → Change i configured db (Command.answer c db).2)
    (hN : ∀ db, A db → N (Command.answer c db).1 (Command.answer c db).2)
    (hf : ∀ x, Safe i configured (N x) C (f x)) : Safe i configured A C (command c >>= f) := by
  refine Prog.SafeFrom.command hA.rely (fun db x db' hdb hstep => ?_) hf
  obtain rfl : x = _ := congrArg Prod.fst hstep
  obtain rfl : db' = _ := congrArg Prod.snd hstep
  exact ⟨hchange db hdb, hN db hdb⟩

theorem Safe.ofPolicy (hA : Stable i A) {e : Except AuthPolicyError α}
    (hf : ∀ a, e = .ok a → Safe i configured A C (f a)) :
    Safe i configured A C (ofPolicy e >>= f) := by
  cases e with
  | ok a => exact hf a rfl
  | error e => exact .fail hA

theorem Safe.attempt (hp : Safe i configured A (fun _ => Inv) p) :
    Safe i configured A (fun _ => Inv) (p.attempt : AuthM (Except Failure α)) := by
  refine fun s hs => .attempt ((hp s hs).mono fun r t hr => ?_)
  cases r with
  | ok | error => exact hr

/-- A session whose commit is a change. -/
theorem safe_run {p : SessionM (Verdict Db α)} {T : Db → (Db → Db) → Prop}
    (hp : ∀ db, Base i db → Ensures (Base i) (Rely i) db ∅ p (Commits (T db)))
    (hT : ∀ db m, Base i db → T db m → Change i configured db (m db)) :
    Safe i configured (Base i) (fun _ => Inv) (Session.run Command.interface i p) := by
  refine fun s hs =>
    (Session.run_safe (B := fun _ => Inv) (Q := fun db => Commits (T db)) (Rely.refl i)
    (fun _ _ _ => Rely.trans) (fun _ => .stay) (Stable.base i).rely (fun _ => (Stable.ofInv i).rely)
    (fun _ _ h _ _ => h.1) (fun db W m a h hm => ?_) hp s hs).mono fun r t h => ?_
  · have hchange := hT db m h hm
    exact ⟨hchange, hchange.inv h.1⟩
  · cases r with
    | error e => exact h.1
    | ok r =>
      cases r with
      | some a => exact h
      | none => exact h.1

end Rules

/-! ## The bootstrap token -/

theorem ensureBootstrapHash_safe {token : Token} (hconf : configured = some token) :
    Safe i configured (Base i) (fun _ => Base i) (ensureBootstrapHash i (hashToken token)) := by
  refine .readPlain (N := fun _ => Base i) (.base i) (fun _ h => h) fun existing => ?_
  split
  · exact .ret (.base i) fun _ h => h
  · refine runOptimistic_safe (B := fun _ => Base i) (Q := fun db => Commits fun m =>
        db.bootstrapHash ≠ some (hashToken token) ∧
          ∃ now, m = rotated db.bootstrapHash (hashToken token) now)
      (Rely.refl i) (fun _ _ _ => Rely.trans) (fun _ => .stay) (Stable.base i).rely
      (fun _ => (Stable.base i).rely) (fun _ _ h _ => h) (fun db W m a h hm => ?_)
      (fun e s h => h.1) (fun db _ => rotateBootstrap_ensures _ db) (Safe.fail (.base i)) _
    obtain ⟨hold, now, rfl⟩ := hm
    have hchange : Change i configured db _ := .rotated token now hconf hold
    refine ⟨hchange, hchange.inv h.1, ?_⟩
    rw [rotated_records, Function.update_of_ne (by simp)]
    exact h.2

theorem exists_of_desiredBootstrapHash {desired : TokenHash}
    (h : desiredBootstrapHash configured = .ok desired) :
    ∃ token, configured = some token ∧ desired = hashToken token := by
  rw [desiredBootstrapHash.eq_def] at h
  split at h
  · cases h
  · rename_i s
    split at h
    · cases h
    · exact ⟨_, rfl, (Except.ok.inj h).symm⟩
  · exact ⟨_, rfl, (Except.ok.inj h).symm⟩

theorem ensureBootstrap_safe :
    Safe i configured (Base i) (fun _ => Base i) (ensureBootstrap i configured) := by
  rw [ensureBootstrap]
  split
  · exact .fail (.base i)
  · rename_i desired hdesired
    obtain ⟨token, hconf, rfl⟩ := exists_of_desiredBootstrapHash hdesired
    exact (ensureBootstrapHash_safe hconf).bind fun _ => .ret (.base i) fun _ h => h

/-! ## Verifying -/

/-- The token was accepted after a lookup of the process that found it neither revoked nor
    expired. No revocation of the token comes before, nor has it been found expired. -/
def Accepted (db : Db) (i : ℕ) (hash : TokenHash) (kind : Role) (ns : Option Ns) (id : TokenId) :
    Prop :=
  ∃ earlier later r clock,
    db.log = earlier ++ Event.lookup i hash (some (id, some r)) clock :: later ∧
    r.hash = hash ∧ isRevoked r = false ∧ isExpired r clock = false ∧ r.kind = kind ∧ r.ns = ns ∧
    (∀ j collapsed, Event.revoked j id collapsed ∉ earlier) ∧ ∀ j, Event.checked j id true ∉ earlier

theorem exists_append_of_prefix {l l' earlier later : List Event} {e : Event} (h : l <+: l')
    (hl : l = earlier ++ e :: later) : ∃ later', l' = earlier ++ e :: later' := by
  obtain ⟨rest, rfl⟩ := h
  exact ⟨later ++ rest, by rw [hl, List.append_assoc, List.cons_append]⟩

variable {hash : TokenHash} {id : TokenId}

theorem Accepted.evolves {a b : Db} {kind : Role} {ns : Option Ns}
    (h : Accepted a i hash kind ns id) (hab : Evolves a b) : Accepted b i hash kind ns id := by
  obtain ⟨earlier, later, r, clock, hlog, hrest⟩ := h
  obtain ⟨later', hlog'⟩ := exists_append_of_prefix hab.log hlog
  exact ⟨earlier, later', r, clock, hlog', hrest⟩

/-- What is known after the lookup of a token. -/
structure Looked (i : ℕ) (hash : TokenHash) (id : TokenId) (r : TokenRecord) (db : Db) : Prop where
  inv : Inv db
  record : id ≠ .bootstrap → ∃ r', db.records id = some r' ∧ r.Becomes r'
  bootstrap : id = .bootstrap → r.expiresAt = none
  log : ∃ earlier later clock,
    db.log = earlier ++ Event.lookup i hash (some (id, some r)) clock :: later ∧ clock ≤ db.clock ∧
    (isRevoked r = false → ∀ j collapsed, Event.revoked j id collapsed ∉ earlier) ∧
    ∀ j, Event.checked j id true ∈ earlier → isExpired r clock = true

variable {r : TokenRecord}

theorem Looked.evolves {a b : Db} (h : Looked i hash id r a) (hab : Evolves a b)
    (hb : Inv b) : Looked i hash id r b := by
  refine ⟨hb, fun hid => ?_, h.bootstrap, ?_⟩
  · obtain ⟨r', hr', hbec⟩ := h.record hid
    obtain ⟨r'', hr'', hbec'⟩ := hab.records id r' hid hr'
    exact ⟨r'', hr'', hbec.trans hbec'⟩
  · obtain ⟨earlier, later, clock, hlog, hclock, hrest⟩ := h.log
    obtain ⟨later', hlog'⟩ := exists_append_of_prefix hab.log hlog
    exact ⟨earlier, later', clock, hlog', hclock.trans hab.clock, hrest⟩

theorem Stable.looked (i : ℕ) (hash : TokenHash) (id : TokenId) (r : TokenRecord) :
    Stable i (Looked i hash id r) :=
  ⟨fun _ h => h.inv, fun _ _ h hab => h.evolves hab.evolves (hab.inv h.inv)⟩

variable {db : Db}

/-- A lookup finds what there is, and what the log says of it is so. -/
theorem Looked.of_lookup (h : Inv db)
    (hfound : db.readRecordByHash hash = some (id, some r)) :
    Looked i hash id r (db.note (.lookup i hash (db.readRecordByHash hash) db.clock)) := by
  have hchange : Change i none db _ := .looked hash
  have hr : db.records id = some r := by
    obtain ⟨id', -, hpair⟩ := Option.map_eq_some_iff.mp hfound
    obtain ⟨rfl, hr⟩ := Prod.mk.inj hpair
    exact hr
  refine ⟨hchange.inv h, fun _ => ⟨r, hr, .refl r⟩, ?_, db.log, [], db.clock, ?_, le_rfl, ?_, ?_⟩
  · rintro rfl
    exact (h.bootstrap r hr).2.1
  · rw [hfound]
    rfl
  · intro hrev j collapsed hmem
    obtain ⟨-, r', hr', hrev'⟩ := h.log _ hmem
    cases hr'.symm.trans hr
    exact Bool.false_ne_true (hrev.symm.trans hrev')
  · intro j hmem
    obtain ⟨-, r', hr', hexp⟩ := h.log _ hmem
    cases hr'.symm.trans hr
    exact hexp

theorem Looked.accepted (h : Looked i hash id r db) (hhash : r.hash = hash)
    (hrev : isRevoked r = false) (hexp : isExpired r db.clock = false) :
    Accepted db i hash r.kind r.ns id := by
  obtain ⟨earlier, later, clock, hlog, hclock, hrevoked, hchecked⟩ := h.log
  have hexp' : isExpired r clock = false := by
    rw [Bool.eq_false_iff] at hexp ⊢
    exact fun h => hexp (isExpired_mono rfl hclock h)
  refine ⟨earlier, later, r, clock, hlog, hhash, hrev, hexp', rfl, rfl, hrevoked hrev, ?_⟩
  exact fun j hmem => Bool.false_ne_true (hexp'.symm.trans (hchecked j hmem))

/-- A record of a role that is not bound to a namespace has none. -/
theorem ns_of_validateRecordShape (h : validateRecordShape r = .ok ()) :
    (if r.kind.boundNsKind = .none then none else r.ns) = r.ns := by
  split_ifs with hkind
  · rw [validateRecordShape, hkind] at h
    cases hns : r.ns with
    | none => rfl
    | some ns =>
      rw [hns] at h
      cases h
  · rfl

/-- What an answer to `verify` means. -/
def VerifyAnswer (i : ℕ) (hash : TokenHash) (reply : Reply) (db : Db) : Prop :=
  ∀ kind ns id, reply = .allowed kind ns id → Accepted db i hash kind ns id

variable {A : Db → Prop}

theorem Safe.denied (hA : Stable i A) {status : ℕ} {reason : String} :
    Safe i configured A (VerifyAnswer i hash) (.ret (.denied status reason)) :=
  .ret hA nofun

theorem Looked.justified (h : Looked i hash id r db) :
    Event.Justified db (.checked i id (isExpired r db.clock)) := by
  cases hexp : isExpired r db.clock with
  | false => trivial
  | true =>
    have hid : id ≠ .bootstrap := by
      intro hid
      rw [isExpired, h.bootstrap hid] at hexp
      cases hexp
    obtain ⟨r', hr', hb⟩ := h.record hid
    exact ⟨hid, r', hr', isExpired_mono hb.expiresAt le_rfl hexp⟩

/-- An expired token is denied, once its entry of the index is removed. -/
theorem collect_safe (hash : TokenHash) (id : TokenId) (r : TokenRecord) :
    Safe i configured (fun db => Inv db ∧ db.Holds id r.hash) (VerifyAnswer i hash) (do
      let expiredAt ← readPlain .clock
      command (.collect id r.hash expiredAt)
      .ret (.denied 401 "expired")) := by
  have hstable : Stable i fun db => Inv db ∧ db.Holds id r.hash :=
    ⟨fun _ h => h.1, fun _ _ h hab => ⟨hab.inv h.1, h.2.evolves hab.evolves⟩⟩
  refine .readPlain (N := fun _ db => Inv db ∧ db.Holds id r.hash) hstable (fun _ h => h)
    fun now => ?_
  refine .command (N := fun _ => Inv) hstable (fun db h => .collected id r.hash now h.2)
    (fun db h => ?_) fun _ => .denied (.ofInv i)
  have hchange : Change i configured db _ := .collected id r.hash now h.2
  exact hchange.inv h.1

theorem verifyRecord_safe (hash : TokenHash) (action ns : Option String) (id : TokenId)
    (r : TokenRecord) : Safe i configured (Looked i hash id r) (VerifyAnswer i hash)
      (verifyRecord i hash action ns id r) := by
  have hstable := Stable.looked i hash id r
  rw [verifyRecord]
  split
  · exact .denied hstable
  rename_i hhash
  split
  · exact .denied hstable
  rename_i hshape
  split
  · exact .denied hstable
  rename_i hrev
  refine .command (N := fun expired db => Inv db ∧ (expired = true → db.Holds id r.hash) ∧
      (expired = false → Accepted db i hash r.kind r.ns id))
    hstable (fun db h => .checked id _ h.justified) (fun db h => ?_) fun expired => ?_
  · have hchange : Change i configured db _ := .checked id _ h.justified
    refine ⟨hchange.inv h.inv, fun hexp => ?_, fun hexp => ?_⟩
    · have hjustified := h.justified
      rw [show isExpired r db.clock = true from hexp] at hjustified
      obtain ⟨r', hr', hb⟩ := h.record hjustified.1
      exact ⟨hjustified.1, r', hr', hb.hash⟩
    · exact (h.accepted (not_not.mp hhash) (Bool.eq_false_iff.mpr hrev) hexp).evolves
        hchange.evolves
  · cases expired with
    | true => exact (collect_safe hash id r).of fun db h => ⟨h.1, h.2.1 rfl⟩
    | false =>
      have haccepted : Stable i fun db => Inv db ∧ Accepted db i hash r.kind r.ns id :=
        ⟨fun _ h => h.1, fun _ _ h hab => ⟨hab.inv h.1, h.2.evolves hab.evolves⟩⟩
      refine .of (A := fun db => Inv db ∧ Accepted db i hash r.kind r.ns id) ?_
        fun db h => ⟨h.1, h.2.2 rfl⟩
      refine .ret haccepted fun db h kind' ns' id' heq => ?_
      cases hdecision : evaluateAccess action ns r.kind r.ns with
      | error reason =>
        rw [hdecision] at heq
        cases heq
      | ok _ =>
        rw [hdecision] at heq
        cases heq
        rw [ns_of_validateRecordShape hshape]
        exact h.2

/-- What is known of what a lookup has found. -/
def Loaded (i : ℕ) (hash : TokenHash) (loaded : Option (TokenId × Option TokenRecord)) (db : Db) :
    Prop :=
  Base i db ∧ ∀ id r, loaded = some (id, some r) → Looked i hash id r db

theorem Stable.loaded (i : ℕ) (hash : TokenHash) (loaded : Option (TokenId × Option TokenRecord)) :
    Stable i (Loaded i hash loaded) :=
  ⟨fun _ h => h.1.1, fun _ _ h hab => ⟨h.1.rely hab, fun id r heq =>
    (Stable.looked i hash id r).rely _ _ (h.2 id r heq) hab⟩⟩

theorem lookup_safe {C : β → Db → Prop} (hash : TokenHash)
    {f : Option (TokenId × Option TokenRecord) → AuthM β}
    (hf : ∀ loaded, Safe i configured (Loaded i hash loaded) C (f loaded)) :
    Safe i configured (Base i) C (command (.readRecordByHash i hash) >>= f) := by
  refine .command (N := fun loaded => Loaded i hash loaded) (.base i) (fun db _ => .looked hash)
    (fun db h => ?_) hf
  have hchange : Change i configured db _ := .looked hash
  exact ⟨⟨hchange.inv h.1, h.2⟩, fun id r hfound => .of_lookup h.1 hfound⟩

theorem readRecordHealing_safe (hash desired : TokenHash) (cached : Bool) :
    Safe i configured (Base i) (Loaded i hash)
      (readRecordHealing i configured hash desired cached) := by
  refine lookup_safe hash fun loaded => ?_
  split
  · have hlookup :
      Safe i configured (Base i) (Loaded i hash) (command (.readRecordByHash i hash)) :=
      lookup_safe hash fun loaded => .ret (.loaded i hash loaded) fun _ h => h
    exact (ensureBootstrap_safe.bind fun _ => hlookup).of fun _ h => h.1
  · exact .ret (.loaded i hash loaded) fun _ h => h

/-- What an answer to `verify` with a token means. -/
def VerifyReply (i : ℕ) (token : Option Token) (reply : Reply) (db : Db) : Prop :=
  ∀ kind ns id, reply = .allowed kind ns id →
    ∃ t, token = some t ∧ Accepted db i (hashToken t) kind ns id

theorem verify_safe (cached : Option TokenHash) (token : Option Token) (action ns : Option String) :
    Safe i configured (Base i) (VerifyReply i token)
      (verify i configured cached token action ns) := by
  have hdenied : ∀ {status reason}, Safe i configured (Base i) (VerifyReply i token)
      (.ret (.denied status reason)) := .ret (.base i) nofun
  unfold verify
  split
  · exact hdenied
  · exact hdenied
  · rename_i t _
    suffices h : Safe i configured (Base i) (VerifyAnswer i (hashToken t)) _ from
      h.mono fun reply db hreply kind ns id heq => ⟨t, rfl, hreply kind ns id heq⟩
    refine .bind (B := fun _ => Base i) ?_ fun desired =>
      (readRecordHealing_safe (hashToken t) desired cached.isSome).bind fun loaded => ?_
    · cases cached with
      | some desired => exact .ret (.base i) fun _ h => h
      | none => exact ensureBootstrap_safe
    · split
      · exact .denied (.loaded ..)
      · exact .denied (.loaded ..)
      · exact .of (verifyRecord_safe _ action ns _ _) fun db h => h.2 _ _ rfl

/-! ## Issuing -/

/-- What is issued has the hash of the new token, and is under no template. -/
theorem issueRecord_ok {input : IssueInput} {checkedAt now : ℕ} {record : TokenRecord}
    (h : issueRecord input hash checkedAt now = .ok record) :
    record.hash = hash ∧ record.issueTemplate = none := by
  rw [issueRecord] at h
  split at h
  · cases h
  obtain ⟨⟨role, ns⟩, -, h⟩ := exists_of_bind_ok h
  obtain ⟨templates, -, h⟩ := exists_of_bind_ok h
  split at h
  · cases h
  obtain ⟨expiresAt, -, h⟩ := exists_of_bind_ok h
  split at h
  · cases h
  · cases h
    exact ⟨rfl, rfl⟩

theorem issue_safe (input : IssueInput) :
    Safe i configured (Base i) (fun _ => Inv) (issue i configured input) := by
  refine ensureBootstrap_safe.bind fun _ =>
    .readPlain (N := fun _ => Base i) (.base i) (fun _ h => h) fun checkedAt =>
    .readPlain (N := fun _ => Base i) (.base i) (fun _ h => h) fun now =>
    .ofPolicy (.base i) fun record hrecord => ?_
  obtain ⟨hhash, htemplate⟩ := issueRecord_ok hrecord
  refine .command (N := fun _ => Inv) (.base i) (fun db h => .issued record h.2 hhash htemplate)
    (fun db h => ?_) fun _ => .ret (.ofInv i) fun _ h => h
  have hchange : Change i configured db _ := .issued record h.2 hhash htemplate
  exact hchange.inv h.1

theorem mem_of_delegatedIssueInput {input : DelegatedIssueInput}
    {request : TokenId × DelegatedIssueTemplate}
    (h : delegatedIssueInput input = .ok request) : request.2 ∈ delegatedIssueTemplates := by
  rw [delegatedIssueInput.eq_def] at h
  split at h
  · cases h
  split at h
  · cases h
  split at h
  · cases h
  · cases h
  rename_i issuer _ _ templateId _ _
  rw [resolveDelegatedIssueTemplate] at h
  split at h
  · rename_i template htemplate
    cases h
    exact List.mem_of_find?_eq_some htemplate
  · cases h

theorem releaseDelegatedIssueLock_safe (key : LockKey) :
    Safe i configured Inv (fun _ => Inv) (releaseDelegatedIssueLock i key) := by
  refine .readPlain (N := fun _ => Inv) (.ofInv i) (fun _ h => h) fun down => ?_
  split
  · exact .ret (.ofInv i) fun _ h => h
  have hchange : ∀ db, Change i configured db (Command.answer (.releaseTokenLock key i) db).2 := by
    intro db
    show Change i configured db (if _ then _ else _)
    split_ifs with hlock
    · exact .unlocked key hlock
    · exact .stay
  exact .command (N := fun _ => Inv) (.ofInv i) (fun db _ => hchange db)
    (fun db h => (hchange db).inv h) fun _ => .ret (.ofInv i) fun _ h => h

theorem delegatedIssueLocked_safe (issuer : TokenId) {template : DelegatedIssueTemplate}
    (htemplate : template ∈ delegatedIssueTemplates) (draws : List Ns) (startedAt : ℕ) :
    Safe i configured (Base i) (fun _ => Inv)
      (delegatedIssueLocked i issuer template draws startedAt) := by
  refine Safe.bind (B := fun _ => Inv) (Safe.attempt ?_) fun result =>
    (releaseDelegatedIssueLock_safe _).bind fun _ => ?_
  · refine safe_run (T := DelegatedCommit i issuer template)
      (fun db h => delegatedSession_ensures h.1 issuer template draws startedAt) fun db m h hm => ?_
    obtain ⟨hlock, hissuer, hquota, ns, nowMs, rfl⟩ := hm
    exact .delegated issuer template ns nowMs h.2 htemplate hlock hissuer hquota
  · split
    · exact .ret (.ofInv i) fun _ h => h
    · exact .fail (.ofInv i)
    · exact .fail (.ofInv i)

theorem delegatedIssue_safe (input : DelegatedIssueInput) (draws : List Ns) :
    Safe i configured (Base i) (fun _ => Inv) (delegatedIssue i configured input draws) := by
  have hread : ∀ {k : Key} {f : k.Val → AuthM Reply},
      (∀ v, Safe i configured (Base i) (fun _ => Inv) (f v)) →
      Safe i configured (Base i) (fun _ => Inv) (readPlain k >>= f) :=
    .readPlain (.base i) fun _ h => h
  refine ensureBootstrap_safe.bind fun _ => .ofPolicy (.base i) fun request hrequest =>
    hread fun record => hread fun now => .ofPolicy (.base i) fun _ _ => hread fun startedAt => ?_
  have hchange : ∀ db, Change i configured db
      (Command.answer (.acquireTokenLock (request.1, request.2.id) i) db).2 := by
    intro db
    rw [Command.answer]
    split_ifs with hfree
    · exact .locked _ hfree
    · exact .stay
  have hfresh :
    ∀ db, (Command.answer (.acquireTokenLock (request.1, request.2.id) i) db).2.records =
      db.records := by
    intro db
    rw [Command.answer]
    split <;> rfl
  refine .command (N := fun _ => Base i) (.base i) (fun db _ => hchange db)
    (fun db h => ⟨(hchange db).inv h.1, by rw [hfresh]; exact h.2⟩) fun locked => ?_
  split
  · exact delegatedIssueLocked_safe _ (mem_of_delegatedIssueInput hrequest) draws startedAt
  · exact .fail (.base i)

/-! ## Listing and revoking -/

theorem list_safe (ns : Option Ns) :
    Safe i configured (Base i) (fun _ => Inv) (list i configured ns) := by
  refine .ofPolicy (.base i) fun _ _ => ensureBootstrap_safe.bind fun _ =>
    Safe.bind (B := fun _ => Inv) ?_ fun _ => .ret (.ofInv i) fun _ h => h
  exact safe_run (T := fun _ _ => False) (fun db _ => ensures_skip fun _ _ => trivial)
    fun _ _ _ h => h.elim

/-- What an answer to `revoke` means. -/
def RevokeReply (i : ℕ) (tokenId : Option TokenId) (reply : Reply) (db : Db) : Prop :=
  reply = .revoked true → ∃ id, tokenId = some id ∧ Event.revoked i id true ∈ db.log

theorem Safe.notRevoked (hA : Stable i A) {tokenId : Option TokenId} :
    Safe i configured A (RevokeReply i tokenId) (.ret (.revoked false)) :=
  .ret hA nofun

theorem revoke_safe (tokenId : Option TokenId) :
    Safe i configured (Base i) (RevokeReply i tokenId) (revoke i configured tokenId) := by
  refine ensureBootstrap_safe.bind fun _ => ?_
  split
  · exact .fail (.base i)
  · exact .fail (.base i)
  rename_i id hid
  refine .readPlain (N := fun record db => Inv db ∧ ∀ r, record = some r → db.Holds id r.hash)
    (.base i) (fun db h => ⟨h.1, fun r hr => ⟨hid, r, hr, rfl⟩⟩) fun record => ?_
  split
  · exact (Safe.notRevoked (.ofInv i)).of fun _ h => h.1
  rename_i r
  have hstable : Stable i fun db => Inv db ∧ db.Holds id r.hash :=
    ⟨fun _ h => h.1, fun _ _ h hab => ⟨hab.inv h.1, h.2.evolves hab.evolves⟩⟩
  have hread : ∀ {k : Key} {f : k.Val → AuthM Reply},
      (∀ v, Safe i configured (fun db => Inv db ∧ db.Holds id r.hash)
        (RevokeReply i (some id)) (f v)) →
      Safe i configured (fun db => Inv db ∧ db.Holds id r.hash) (RevokeReply i (some id))
        (readPlain k >>= f) :=
    .readPlain hstable fun _ h => h
  refine .of (A := fun db => Inv db ∧ db.Holds id r.hash) (hread fun indexed => ?_)
    fun db h => ⟨h.1, h.2 r rfl⟩
  split
  · exact .notRevoked hstable
  split
  · refine .command (N := fun _ => Inv) hstable (fun db h => .dropped id r.hash h.2)
      (fun db h => ?_) fun _ => .notRevoked (.ofInv i)
    have hchange : Change i configured db _ := .dropped id r.hash h.2
    exact hchange.inv h.1
  · refine hread fun now => ?_
    refine .command (N := fun collapsed db => Inv db ∧ Event.revoked i id collapsed ∈ db.log)
      hstable (fun db h => .revoked id r.hash now h.2) (fun db h => ?_) fun collapsed => ?_
    · have hchange : Change i configured db _ := .revoked id r.hash now h.2
      exact ⟨hchange.inv h.1, List.mem_append_right _ (List.mem_singleton_self _)⟩
    · refine .ret ⟨fun _ h => h.1, fun _ _ h hab => ⟨hab.inv h.1, hab.evolves.log.subset h.2⟩⟩
        fun db h heq => ⟨id, rfl, ?_⟩
      cases heq
      exact h.2

/-! ## The calls together -/

/-- What the answer to a call means. -/
def Answers (i : ℕ) : Kind → Reply → Db → Prop
  | .verify _ _ token _ _ => VerifyReply i token
  | .revoke _ tokenId => RevokeReply i tokenId
  | _ => fun _ _ => True

theorem body_safe (k : Kind) : Safe i k.configured (Base i) (Answers i k) (body i k) := by
  cases k with
  | verify configured cached token action ns => exact verify_safe cached token action ns
  | issue configured input => exact (issue_safe input).mono fun _ _ _ => trivial
  | delegatedIssue configured input draws =>
    exact (delegatedIssue_safe input draws).mono fun _ _ _ => trivial
  | list configured ns => exact (list_safe ns).mono fun _ _ _ => trivial
  | revoke configured tokenId => exact revoke_safe tokenId

/-- **The calls together.** Each call only makes changes that the others rely on. -/
def relyGuarantee (ok : AuthWorld → Label api Kind Env → Prop) :
    System.RelyGuarantee auth Initial ok where
  inv s := Inv s.db
  rely i _ := Shared.Moves i (Rely i)
  guar i k := Shared.Guar i (Change i k.configured)
  compat _ _ _ _ := True
  inv_init _ h := Inv.initial h
  rely_refl i _ := Shared.Moves.refl (Rely.refl i)
  rely_trans i _ _ _ _ := Shared.Moves.trans fun _ _ _ => .trans
  guar_inv _ _ _ _ h hg := hg.db.inv h
  guar_rely _ _ j _ _ _ hne _ h hg := hg.moves (Rely.refl j) (Ne.symm hne) (hg.db.rely hne h)
  env_inv w e t _ h he := by
    obtain rfl : t = _ := he
    exact Env.inv e h
  env_rely w e t i _ _ h he := by
    obtain rfl : t = _ := he
    exact .of_sees (Rely.refl i) (Env.rely e i _) (.inr rfl)
  spawn_compat _ _ _ _ _ _ _ _ _ _ := ⟨trivial, trivial⟩
  spawn_safe w i k hw h hi _ :=
    (body_safe k w.store ⟨h, fresh_of_reachable hw hi⟩).mono fun _ _ _ => trivial

/-- What a call has answered is backed. -/
theorem answers_of_reachable {ok : AuthWorld → Label api Kind Env → Prop} {w : AuthWorld}
    (h : auth.ReachableWhen Initial ok w) {p : Process api Kind Failure Reply}
    (hp : w.proc i = some p) {reply : Reply} (hreply : p.prog = .ret reply) :
    Answers i p.kind reply w.store.db := by
  have hsafe := (relyGuarantee ok).safe_post (fun _ _ _ _ => trivial)
    (Q := fun i k r s => Finishes (Answers i k) (fun _ => Inv) r s.db)
    (fun w i k hw hinv hi => body_safe k w.store ⟨hinv, fresh_of_reachable hw hi⟩) h hp
  exact hsafe.outcome (.refl (.refl i)) (by rw [hreply]; rfl)

end Wdl.Auth
