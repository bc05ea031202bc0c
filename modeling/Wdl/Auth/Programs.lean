import Wdl.Auth.State

/-!
# The calls of the auth service

Control calls `verify` with every request, and `issue`, `delegatedIssue`, `list` and `revoke`
for the life of tokens. Each call first makes sure that the record of the bootstrap token
is that of the configured token (`ensureBootstrapHash`); a call that was told so before may
skip it (`verify`).

A call that fails because the store does has no more effects, so that its failure is the end
of the process at that point. The one exception is a delegated issue, which gives its lock
back: its session therefore asks before each step whether the store can be reached.
-/

namespace Wdl.Auth

/-! ## Sessions and commands -/

/-- A session of the auth service. -/
abbrev SessionM := Session keyed Failure

def watch (ks : List Key) : SessionM Unit := Prog.perform (I := Query.interface keyed) (.watch ks)

def read (k : Key) : SessionM k.Val := Prog.perform (I := Query.interface keyed) (.read k)

/-- The key of a record. -/
def Key.isRecord : Key → Bool
  | .record _ => true
  | _ => false

/-- Go through the keys of the records. -/
def scanTokenKeys : SessionM (List Key) :=
  Prog.perform (I := Query.interface keyed) (.scan Key.isRecord)

/-- Go on with the value, or fail with the error. -/
def ofPolicy {I : Interface} {α : Type} : Except AuthPolicyError α → Prog I Failure α
  | .ok a => .ret a
  | .error e => .fail (.policy e)

/-- Fail with a refusal if `c`. -/
def refuseIf {I : Interface} (c : Prop) [Decidable c] (status : ℕ) (reason message : String) :
    Prog I Failure Unit :=
  if c then .fail (.policy ⟨status, reason, message⟩) else .ret ()

/-- The transactions that watch nothing, the scripts and the single commands. -/
inductive Command
  /-- The process looks a hash up. -/
  | readRecordByHash (i : ℕ) (hash : TokenHash)
  /-- The process looks at the time, to see whether what it looked up has expired. -/
  | isExpired (i : ℕ) (id : TokenId) (record : TokenRecord)
  /-- An expired token loses its entry of the index. -/
  | collect (id : TokenId) (hash : TokenHash) (now : ℕ)
  /-- A token is issued: its record and its entry of the index. -/
  | issue (id : TokenId) (record : TokenRecord)
  /-- The process revokes a token. -/
  | revoke (i : ℕ) (id : TokenId) (hash : TokenHash) (now : ℕ)
  /-- `DEL` of an entry of the index. -/
  | dropIndex (hash : TokenHash)
  /-- Take a lock, if it is free. -/
  | acquireTokenLock (key : LockKey) (token : ℕ)
  /-- Give a lock back, if it is still ours. -/
  | releaseTokenLock (key : LockKey) (token : ℕ)

/-- The commands and their answers. -/
abbrev Command.interface : Interface where
  Call := Command
  Ans
    | .readRecordByHash _ _ => Option (TokenId × Option TokenRecord)
    | .isExpired _ _ _ => Bool
    | .revoke _ _ _ _ => Bool
    | .acquireTokenLock _ _ => Bool
    | _ => Unit

/-- What a command answers and does. -/
def Command.answer : (c : Command.interface.Call) → Db → Command.interface.Ans c × Db
  | .readRecordByHash i hash, db =>
    (db.readRecordByHash hash, db.note (.lookup i hash (db.readRecordByHash hash) db.clock))
  | .isExpired i id record, db =>
    (Wdl.Auth.isExpired record db.clock,
      db.note (.checked i id (Wdl.Auth.isExpired record db.clock)))
  | .collect id hash now, db =>
    ((), (db.delIndex hash).setFields id fun r => { r with expiredAt := some now })
  | .issue id record, db => ((), (db.putRecord id record).setIndex record.hash id)
  | .revoke i id hash now, db =>
    let collapsed := (db.index hash).isSome
    (collapsed, ((db.delIndex hash).setFields id fun r => { r with revokedAt := some now }).note
      (.revoked i id collapsed))
  | .dropIndex hash, db => ((), db.delIndex hash)
  | .acquireTokenLock key token, db =>
    if db.locks key = none then (true, db.setLock key (some token)) else (false, db)
  | .releaseTokenLock key token, db =>
    ((), if db.locks key = some token then db.setLock key none else db)

/-- What a command does. -/
def Command.Step (c : Command.interface.Call) (db : Db) (x : Command.interface.Ans c) (db' : Db) :
    Prop :=
  (x, db') = Command.answer c db

/-- The requests of the auth service to its store. -/
abbrev api : Interface := Request.interface keyed Command.interface

/-- A process of the auth service. -/
abbrev AuthM := Prog api Failure

def command (c : Command) : AuthM (Command.interface.Ans c) := Prog.perform (I := api) (.command c)

/-- A read outside of a session. -/
def readPlain (k : Key) : AuthM k.Val := Prog.perform (I := api) (.read k)

/-! ## The bootstrap token -/

/-- The hash of the configured token, which must not be blank. -/
def desiredBootstrapHash : Option Token → Except Failure TokenHash
  | none => .error (.thrown "BOOTSTRAP_TOKEN missing")
  | some (.text s) =>
    if s.toList.all Char.isWhitespace then .error (.thrown "BOOTSTRAP_TOKEN missing")
    else .ok (hashToken (.text s))
  | some token => .ok (hashToken token)

/-- `HSET` of the fields of the bootstrap record. The other fields stay. -/
def bootstrapRecord (desired : TokenHash) (now : ℕ) : Option TokenRecord → TokenRecord
  | none => { hash := desired, kind := .ops, createdAt := now, createdBy := .bootstrap }
  | some old =>
    { old with
      hash := desired, kind := .ops, createdAt := now, createdBy := .bootstrap, revokedAt := none }

/-- The writes of a rotation away from the hash `old`. -/
def rotated (old : Option TokenHash) (desired : TokenHash) (now : ℕ) (db : Db) : Db :=
  let db₁ := old.elim db db.delIndex
  (db₁.putRecord .bootstrap (bootstrapRecord desired now (db₁.records .bootstrap))).setIndex
    desired .bootstrap

theorem rotated_records (old : Option TokenHash) (desired : TokenHash) (now : ℕ) (db : Db) :
    (rotated old desired now db).records = Function.update db.records .bootstrap
      (some (bootstrapRecord desired now (db.records .bootstrap))) := by
  cases old <;> rfl

theorem rotated_index (old : Option TokenHash) (desired : TokenHash) (now : ℕ) (db : Db) :
    (rotated old desired now db).index = Function.update
      (old.elim db.index fun h => Function.update db.index h none) desired (some .bootstrap) := by
  cases old <;> rfl

@[simp] theorem rotated_locks (old : Option TokenHash) (desired : TokenHash) (now : ℕ) (db : Db) :
    (rotated old desired now db).locks = db.locks := by
  cases old <;> rfl

@[simp] theorem rotated_clock (old : Option TokenHash) (desired : TokenHash) (now : ℕ) (db : Db) :
    (rotated old desired now db).clock = db.clock := by
  cases old <;> rfl

@[simp] theorem rotated_log (old : Option TokenHash) (desired : TokenHash) (now : ℕ) (db : Db) :
    (rotated old desired now db).log = db.log := by
  cases old <;> rfl

/-- `rotateBootstrap`. -/
def rotateBootstrap (desired : TokenHash) : SessionM (Verdict Db Unit) := do
  watch [.record .bootstrap]
  let old ← read (.record .bootstrap)
  if old.map TokenRecord.hash = some desired then .ret (.leave ())
  else do
    let now ← read .clock
    .ret (.commit (rotated (old.map TokenRecord.hash) desired now) ())

/-- How often a rotation is tried. -/
def bootstrapAttempts : ℕ := 5

def ensureBootstrapHash (i : ℕ) (desired : TokenHash) : AuthM Unit := do
  let existing ← readPlain (.record .bootstrap)
  if existing.map TokenRecord.hash = some desired then .ret ()
  else
    runOptimistic i (rotateBootstrap desired)
      (.fail (.thrown "bootstrap upsert WATCH retry exhausted")) bootstrapAttempts

/-- `ensureBootstrap`, with the token that is configured. -/
def ensureBootstrap (i : ℕ) (configured : Option Token) : AuthM TokenHash :=
  match desiredBootstrapHash configured with
  | .error e => .fail e
  | .ok desired => do
    ensureBootstrapHash i desired
    .ret desired

/-! ## Verifying -/

/-- What a call answers. -/
inductive Reply
  /-- The token is not accepted. -/
  | denied (status : ℕ) (reason : String)
  /-- The token is accepted, as a principal of this kind and namespace. -/
  | allowed (kind : Role) (ns : Option Ns) (tokenId : TokenId)
  /-- A token was issued. -/
  | issued (token : Token) (tokenId : TokenId) (ns : Option Ns)
  /-- The tokens there are. -/
  | tokens (entries : List (TokenId × TokenRecord))
  /-- Whether the call revoked the token. -/
  | revoked (collapsed : Bool)
  deriving DecidableEq

/-- The answer for a record that is in order, by the access decision. The principal has a
    namespace only if its role is bound to one. -/
def accessReply (id : TokenId) (record : TokenRecord) : Except String Unit → Reply
  | .error reason => .denied 403 reason
  | .ok () =>
    .allowed record.kind (if record.kind.boundNsKind = .none then none else record.ns) id

/-- The decision on a record that was found under a hash. -/
def verifyRecord (i : ℕ) (hash : TokenHash) (action ns : Option String) (id : TokenId)
    (record : TokenRecord) : AuthM Reply :=
  if record.hash ≠ hash then .ret (.denied 503 "invalid_record_hash")
  else
    match validateRecordShape record with
    | .error reason => .ret (.denied 503 reason)
    | .ok () =>
      if isRevoked record then .ret (.denied 401 "revoked")
      else do
        let expired ← command (.isExpired i id record)
        if expired then do
          let expiredAt ← readPlain .clock
          command (.collect id record.hash expiredAt)
          .ret (.denied 401 "expired")
        else .ret (accessReply id record (evaluateAccess action ns record.kind record.ns))

/-- The hash that was cached, if there is one, is what the bootstrap record was last made sure to
    have. -/
def ensureBootstrapForVerify (i : ℕ) (configured : Option Token) :
    Option TokenHash → AuthM TokenHash
  | some desired => .ret desired
  | none => ensureBootstrap i configured

/-- Look a hash up. When nothing is found under a bootstrap token that was cached, its record is
    made sure of, and the hash is looked up again. -/
def readRecordHealing (i : ℕ) (configured : Option Token) (hash desired : TokenHash)
    (cached : Bool) : AuthM (Option (TokenId × Option TokenRecord)) := do
  let loaded ← command (.readRecordByHash i hash)
  if loaded.isNone ∧ cached ∧ hash = desired then do
    let _ ← ensureBootstrap i configured
    command (.readRecordByHash i hash)
  else .ret loaded

/-- `verify`. -/
def verify (i : ℕ) (configured : Option Token) (cached : Option TokenHash) (token : Option Token)
    (action ns : Option String) : AuthM Reply :=
  match token with
  | none | some (.text "") => .ret (.denied 401 "missing_token")
  | some token => do
    let desired ← ensureBootstrapForVerify i configured cached
    let loaded ← readRecordHealing i configured (hashToken token) desired cached.isSome
    match loaded with
    | none => .ret (.denied 401 "unknown_token")
    | some (_, none) => .ret (.denied 401 "unknown_token")
    | some (id, some record) => verifyRecord i (hashToken token) action ns id record

/-! ## Issuing -/

/-- What is asked of `issue`. -/
structure IssueInput where
  kind : Option String
  ns : Option Ns
  label : Option String
  expiresAt : ExpiresAt
  issuerTokenId : Option TokenId
  issueTemplates : Option (List String)
  /-- The storage field `issue_templates` is there. -/
  storageField : Bool

/-- The templates of an issue, which only token issuers have. -/
def issueTemplatesOf (role : Role) (value : Option (List String)) :
    Except AuthPolicyError (Option (List String)) :=
  if role = .tokenIssuer then do
    let ids ← validateIssueTemplatesInput value
    let _ ← ids.mapM resolveDelegatedIssueTemplate
    .ok (some ids)
  else if value.isSome then
    refused 400 "invalid_template_request" "issueTemplates is only valid for token-issuer tokens"
  else .ok none

/-- The record that is to be issued, from the checked input. -/
def issueRecord (input : IssueInput) (hash : TokenHash) (checkedAt now : ℕ) :
    Except AuthPolicyError TokenRecord :=
  if input.storageField then
    refused 400 "invalid_template_request" "issue_templates is a storage field; use issueTemplates"
  else do
    let (role, ns) ← validateIssueInput input.kind input.ns
    let templates ← issueTemplatesOf role input.issueTemplates
    if input.label.any (128 < utf16Length ·) then
      refused 400 "invalid_label" "label must be string ≤128 chars"
    else do
      let expiresAt ← validateExpiresAt input.expiresAt checkedAt
      match input.issuerTokenId with
      | none => refused 400 "missing_issuer" "issuerTokenId required"
      | some issuer =>
        .ok { hash := hash
              kind := role
              ns := if role.boundNsKind = .none then none else ns
              label := input.label.filter (· ≠ "")
              createdAt := now
              createdBy := issuer
              expiresAt := expiresAt
              issueTemplates := templates }

/-- `issue`. -/
def issue (i : ℕ) (configured : Option Token) (input : IssueInput) : AuthM Reply := do
  let _ ← ensureBootstrap i configured
  let checkedAt ← readPlain .clock
  let now ← readPlain .clock
  let record ← ofPolicy (issueRecord input (hashToken (.random i)) checkedAt now)
  command (.issue (.random i) record)
  .ret (.issued (.random i) (.random i) record.ns)

/-! ## Delegated issue -/

/-- `scanTokenRecords`. -/
def scanTokenRecords : SessionM (List (TokenId × TokenRecord)) := do
  let keys ← scanTokenKeys
  let ids := (keys.filterMap fun | .record id => some id | _ => none).eraseDups
  let records ← Prog.forEach ids fun id => do
    let record ← read (.record id)
    .ret (record.map fun r => (id, r))
  .ret (records.filterMap id)

/-- The session goes on only if the store can be reached. -/
def reach : SessionM Unit := do
  let down ← read .unreachable
  if down then .fail (.thrown "redis") else .ret ()

/-- `validateIssuerForDelegatedIssue`. -/
def validateIssuerForDelegatedIssue (issuer : Option TokenRecord) (templateId : String) (now : ℕ) :
    Except AuthPolicyError Unit :=
  match issuer with
  | none =>
    refused 403 "delegated_issue_not_allowed" "delegated issue requires a token-issuer token"
  | some issuer =>
    match validateRecordShape issuer with
    | .error reason => refused 503 reason "issuer token record is invalid"
    | .ok () =>
      if issuer.kind ≠ .tokenIssuer then
        refused 403 "issuer_not_token_issuer" "delegated issue requires a token-issuer token"
      else if isRevoked issuer ∨ isExpired issuer now then
        refused 403 "issuer_not_active" "issuer token is not active"
      else do
        let allowed ← parseStoredIssueTemplates issuer.issueTemplates
        if templateId ∈ allowed then .ok ()
        else
          refused 403 "template_not_allowed"
            ("issuer is not allowed to use template \"" ++ templateId ++ "\"")

/-- A record counts against the quota of an issuer and a template, if it has not expired. -/
def countsFor (issuer : TokenId) (templateId : String) (record : TokenRecord) : Bool :=
  record.createdBy = issuer && record.issueTemplate = some templateId && record.revokedAt.isNone

/-- `countActiveDelegatedTokens`. -/
def countActiveDelegatedTokens (records : List (TokenId × TokenRecord)) (issuer : TokenId)
    (templateId : String) (nowMs : ℕ) : Except AuthPolicyError ℕ :=
  let counted := records.filter fun e => countsFor issuer templateId e.2
  if counted.any fun e => e.2.expiresAt.isNone then
    refused 503 "delegated_issue_misconfigured" "delegated token record is missing expires_at"
  else .ok (counted.countP fun e => e.2.expiresAt.any (nowMs < ·))

/-- `chooseDelegatedNamespace`, with the names that are drawn, at most sixteen of them. -/
def chooseDelegatedNamespace (records : List (TokenId × TokenRecord)) : List Ns → SessionM Ns
  | [] => .fail (.policy ⟨409, "namespace_collision", "could not generate an available namespace"⟩)
  | ns :: rest =>
    if !isValidTenantNs ns then chooseDelegatedNamespace records rest
    else do
      reach
      let namespaces ← read .namespaces
      if namespaces ns then chooseDelegatedNamespace records rest
      else if records.any fun e => e.2.ns = some ns then chooseDelegatedNamespace records rest
      else .ret ns

def delegatedIssueNamespaceRetries : ℕ := 16

def delegatedIssueLockTtlSeconds : ℕ := 30

/-- The record of a token that is issued under a template. -/
def delegatedRecord (i : ℕ) (issuer : TokenId) (template : DelegatedIssueTemplate) (ns : Ns)
    (nowMs : ℕ) : TokenRecord where
  hash := hashToken (.random i)
  kind := template.targetKind
  ns := some ns
  label := some (renderDelegatedIssueLabel template ns)
  createdAt := nowMs
  createdBy := issuer
  expiresAt := some (nowMs + template.ttlSeconds * 1000)
  issueTemplate := some template.id
  issueTemplateVersion := some template.version

/-- The writes of a delegated issue. -/
def delegatedWrites (i : ℕ) (issuer : TokenId) (template : DelegatedIssueTemplate)
    (record : TokenRecord) (db : Db) : Db :=
  ((db.putRecord (.random i) record).setIndex record.hash (.random i)).note
    (.delegated issuer template.id (.random i))

/-- The refusal of a call that lost its lock. -/
def delegatedIssueBusy (message : String) : Failure :=
  .policy ⟨409, "delegated_issue_busy", message⟩

/-- `watchDelegatedIssuePrerequisites`. -/
def watchDelegatedIssuePrerequisites (i : ℕ) (issuer : TokenId) (templateId : String) :
    SessionM Unit := do
  reach
  watch [.lock (issuer, templateId), .record issuer]
  let current ← read (.lock (issuer, templateId))
  if current ≠ some i then
    .fail (delegatedIssueBusy
      "delegated issue lock expired before the token could be issued; retry")
  else do
    reach
    let record ← read (.record issuer)
    let now ← read .clock
    ofPolicy (validateIssuerForDelegatedIssue record templateId now)

/-- What a delegated issue does once it has the lock. -/
def delegatedSession (i : ℕ) (issuer : TokenId) (template : DelegatedIssueTemplate)
    (draws : List Ns) (startedAt : ℕ) : SessionM (Verdict Db Reply) := do
  let nowMs ← read .clock
  reach
  let records ← scanTokenRecords
  reach
  let active ← ofPolicy (countActiveDelegatedTokens records issuer template.id nowMs)
  refuseIf (template.activeQuota ≤ active) 409 "active_quota_exceeded" "active token quota exceeded"
  let ns ← chooseDelegatedNamespace records
    ((draws.take delegatedIssueNamespaceRetries).map (template.nsPrefix ++ ·))
  let elapsed ← read .clock
  refuseIf ((delegatedIssueLockTtlSeconds - 1) * 1000 ≤ elapsed - startedAt) 409
    "delegated_issue_busy" "delegated issue exceeded the local lock budget; retry"
  watchDelegatedIssuePrerequisites i issuer template.id
  .ret (.commit (delegatedWrites i issuer template (delegatedRecord i issuer template ns nowMs))
    (.issued (.random i) (.random i) (some ns)))

/-- `releaseDelegatedIssueLock`, which does what it can. -/
def releaseDelegatedIssueLock (i : ℕ) (key : LockKey) : AuthM Unit := do
  let down ← readPlain .unreachable
  if down then .ret () else command (.releaseTokenLock key i)

/-- What is asked of `delegatedIssue`. -/
structure DelegatedIssueInput where
  issuerTokenId : Option TokenId
  template : Option String
  /-- The first field that is not accepted. -/
  otherField : Option String

/-- The checked input of a delegated issue. -/
def delegatedIssueInput (input : DelegatedIssueInput) :
    Except AuthPolicyError (TokenId × DelegatedIssueTemplate) :=
  match input.otherField with
  | some field =>
    refused 400 "invalid_template_request" (field ++ " is not accepted by delegated issue")
  | none =>
    match input.issuerTokenId with
    | none => refused 400 "invalid_template_request" "issuerTokenId is required"
    | some issuer =>
      match input.template with
      | none | some "" => refused 400 "invalid_template_request" "template is required"
      | some templateId => (resolveDelegatedIssueTemplate templateId).map (issuer, ·)

/-- A delegated issue under its lock, which is given back whatever becomes of the issue. -/
def delegatedIssueLocked (i : ℕ) (issuer : TokenId) (template : DelegatedIssueTemplate)
    (draws : List Ns) (startedAt : ℕ) : AuthM Reply := do
  let result ← (Session.run Command.interface i
    (delegatedSession i issuer template draws startedAt)).attempt
  releaseDelegatedIssueLock i (issuer, template.id)
  match result with
  | .ok (some reply) => .ret reply
  | .ok none => .fail (delegatedIssueBusy
      "delegated issue lock changed before the token could be issued; retry")
  | .error e => .fail e

/-- `delegatedIssue`. -/
def delegatedIssue (i : ℕ) (configured : Option Token) (input : DelegatedIssueInput)
    (draws : List Ns) : AuthM Reply := do
  let _ ← ensureBootstrap i configured
  let request ← ofPolicy (delegatedIssueInput input)
  let record ← readPlain (.record request.1)
  let now ← readPlain .clock
  ofPolicy (validateIssuerForDelegatedIssue record request.2.id now)
  let startedAt ← readPlain .clock
  let locked ← command (.acquireTokenLock (request.1, request.2.id) i)
  if locked then delegatedIssueLocked i request.1 request.2 draws startedAt
  else .fail (delegatedIssueBusy "delegated issue is already in progress")

/-! ## Listing and revoking -/

/-- `list`. -/
def list (i : ℕ) (configured : Option Token) (filterNs : Option Ns) : AuthM Reply := do
  let _ ← ofPolicy (filterNs.elim (.ok "") fun ns => assertTenantNs (some ns))
  let _ ← ensureBootstrap i configured
  let records ← Session.run Command.interface i do
    let records ← scanTokenRecords
    .ret (.leave records)
  .ret (.tokens ((records.getD []).filter fun e =>
    filterNs.all fun ns => ns = "" || e.2.ns = some ns))

/-- `revoke`. -/
def revoke (i : ℕ) (configured : Option Token) (tokenId : Option TokenId) : AuthM Reply := do
  let _ ← ensureBootstrap i configured
  match tokenId with
  | none => .fail (.policy ⟨400, "missing_token_id", "tokenId required"⟩)
  | some .bootstrap => .fail (.policy ⟨403, "bootstrap_protected",
      "bootstrap token is infra-managed; rotate via BOOTSTRAP_TOKEN env"⟩)
  | some id => do
    let record ← readPlain (.record id)
    match record with
    | none => .ret (.revoked false)
    | some record => do
      let indexed ← readPlain (.index record.hash)
      if indexed.isNone then .ret (.revoked false)
      else if isRevoked record then do
        command (.dropIndex record.hash)
        .ret (.revoked false)
      else do
        let now ← readPlain .clock
        let collapsed ← command (.revoke i id record.hash now)
        .ret (.revoked collapsed)

end Wdl.Auth
