import Wdl.Shared.Names

/-!
# Tokens, roles and templates

What the auth service decides without looking at its store: which roles there are and
what they may do, what a stored token record must look like, and by which templates
a token issuer may issue tokens of its own.

Times are in milliseconds. A plaintext token is drawn at random, and is then known by the
number of the process that drew it, or it is some other text; the same holds of the ids of
tokens. The hash of a token is taken to be collision-free.

* `evaluateAccess` is the access decision, with its red lines in order;
* `TokenRecord` is a stored token, and `validateRecordShape` checks it;
* `DelegatedIssueTemplate` are the templates.
-/

namespace Wdl.Auth

/-! ## Roles -/

/-- The kinds of tokens. -/
inductive Role
  | ops | opsObserver | platform | platformObserver | ns | tokenIssuer
  deriving DecidableEq, Repr

/-- What the namespace of a token has to be. -/
inductive BoundNsKind
  | tenant | platformTier | none
  deriving DecidableEq, Repr

namespace Role

def text : Role → String
  | ops => "ops"
  | opsObserver => "ops-observer"
  | platform => "platform"
  | platformObserver => "platform-observer"
  | ns => "ns"
  | tokenIssuer => "token-issuer"

def all : List Role := [ops, opsObserver, platform, platformObserver, ns, tokenIssuer]

/-- The role with a name. -/
def ofText (name : String) : Option Role := all.find? fun r => r.text = name

def boundNsKind : Role → BoundNsKind
  | ops | opsObserver | tokenIssuer => .none
  | platform | platformObserver => .platformTier
  | ns => .tenant

/-- What the admins of a platform namespace and the tenants may both do. -/
def adminActions : List String :=
  ["worker.deploy", "worker.promote", "worker.delete",
    "worker.versions.read", "worker.versions.delete", "worker.list", "worker.logs.tail",
    "workflow.list", "workflow.read", "workflow.write",
    "secret.read", "secret.write", "secret.delete",
    "d1.list", "d1.create", "d1.delete", "d1.migrate.read", "d1.migrate.write", "d1.execute",
    "r2.bucket.list", "r2.object.list", "r2.object.head", "r2.object.get", "r2.object.delete",
    "ai.provider.read", "ai.provider.write", "ai.model.list"]

/-- The patterns of the actions of a role. -/
def actions : Role → List String
  | ops => ["*"]
  | opsObserver =>
    ["worker.list", "worker.versions.read", "workflow.list", "d1.list", "d1.migrate.read",
      "r2.bucket.list", "r2.object.list", "ai.provider.read", "ai.model.list", "host.read"]
  | platform => adminActions
  | platformObserver =>
    ["worker.versions.read", "worker.list", "worker.logs.tail", "workflow.list", "secret.read",
      "d1.list", "d1.migrate.read", "r2.bucket.list", "r2.object.list", "ai.provider.read",
      "ai.model.list"]
  | ns => adminActions ++ ["host.read"]
  | tokenIssuer => ["auth.delegated_token.issue"]

/-- The role acts on every namespace, and not only on the one its token is bound to. -/
def everyNs : Role → Bool
  | ops | opsObserver | tokenIssuer => true
  | platform | platformObserver | ns => false

end Role

/-- The kinds that pass the gate of the reserved namespaces. -/
def opsKinds : List Role := [.ops, .opsObserver]

def knownActions : List String :=
  ["diagnostic.whoami"] ++ Role.adminActions ++ ["host.read", "host.write",
    "auth.token.issue", "auth.token.revoke", "auth.token.list", "auth.delegated_token.issue",
    "system.reload"]

/-- A pattern is `*`, a name with a last part left open, or a name. -/
def matchesAction (pattern action : String) : Bool :=
  if pattern = "*" then true
  else if ".*".toList.isSuffixOf pattern.toList then
    let stem := pattern.toList.dropLast
    stem.isPrefixOf action.toList && !(action.toList.drop stem.length).contains '.'
  else pattern = action

/-- The action is one of a group, by how its name begins. -/
def inGroup (group action : String) : Bool := group.toList.isPrefixOf action.toList

/-- The access decision, with the reason of a refusal. The order of the checks matters. -/
def evaluateAccess (action ns : Option String) (kind : Role) (principalNs : Option Ns) :
    Except String Unit :=
  let opsOnly (reason : String) : Except String Unit :=
    if kind = .ops then .ok () else .error reason
  let inScope (action : String) : Except String Unit :=
    if kind.everyNs = false ∧ (ns.isNone ∨ ns ≠ principalNs) then .error "ns_not_in_scope"
    else if kind.actions.any (matchesAction · action) then .ok ()
    else .error "action_not_in_scope"
  let byAction : Except String Unit :=
    match action with
    | none => opsOnly "unknown_action_requires_ops"
    | some action =>
      if action ∉ knownActions then opsOnly "unknown_action_requires_ops"
      else if action = "diagnostic.whoami" then .ok ()
      else if inGroup "auth.token." action then opsOnly "auth_lifecycle_requires_ops"
      else if inGroup "system." action then opsOnly "system_action_requires_ops"
      else inScope action
  match ns with
  | none => byAction
  | some target =>
    if isReservedNs target ∧ target ∉ platformTierReservedNs ∧ kind = .ops then .ok ()
    else if isReservedNs target ∧ target ∉ platformTierReservedNs ∧ kind ∉ opsKinds then
      .error "reserved_ns_requires_ops"
    else if target ∈ reservedTenantNs then opsOnly "reserved_tenant_ns_requires_ops"
    else byAction

/-! ## Errors -/

/-- An error with the status and the reason that are answered. -/
structure AuthPolicyError where
  status : ℕ
  reason : String
  message : String
  deriving DecidableEq, Repr

/-- Why a call ends early. -/
inductive Failure
  /-- A policy forbids it. -/
  | policy (e : AuthPolicyError)
  /-- The store, or what the call needs of its environment, has failed. -/
  | thrown (message : String)
  deriving DecidableEq, Repr

/-- A refusal. -/
def refused {α : Type} (status : ℕ) (reason message : String) : Except AuthPolicyError α :=
  .error ⟨status, reason, message⟩

/-! ## Tokens -/

/-- A plaintext token: what a process drew at random, or any other text. -/
inductive Token
  | random (process : ℕ)
  | text (s : String)
  deriving DecidableEq, Repr

/-- The hash of a token, which no two tokens share. -/
structure TokenHash where
  /-- The token that is hashed. -/
  token : Token
  deriving DecidableEq, Repr

def hashToken (token : Token) : TokenHash := ⟨token⟩

/-- The id of a token: the reserved one, one drawn at random, or any other text. -/
inductive TokenId
  | bootstrap
  | random (process : ℕ)
  | text (s : String)
  deriving DecidableEq, Repr

/-- A stored token. A field that is absent, or the empty text, is `none`. -/
structure TokenRecord where
  hash : TokenHash
  kind : Role
  ns : Option Ns := none
  label : Option String := none
  createdAt : ℕ
  createdBy : TokenId
  expiresAt : Option ℕ := none
  revokedAt : Option ℕ := none
  expiredAt : Option ℕ := none
  issueTemplates : Option (List String) := none
  issueTemplate : Option String := none
  issueTemplateVersion : Option String := none
  deriving DecidableEq, Repr

def isExpired (record : TokenRecord) (now : ℕ) : Bool := record.expiresAt.any (· ≤ now)

def isRevoked (record : TokenRecord) : Bool := record.revokedAt.isSome

/-! ## Templates -/

/-- How a token issuer may issue tokens. -/
structure DelegatedIssueTemplate where
  id : String
  targetKind : Role
  /-- What the names of the namespaces begin with. -/
  nsPrefix : String
  /-- What the labels begin with, before the namespace. -/
  labelText : String
  ttlSeconds : ℕ
  activeQuota : ℕ
  version : String
  deriving DecidableEq, Repr

def delegatedIssueTemplates : List DelegatedIssueTemplate :=
  [⟨"wdl-chat-ns-pool", .ns, "tmp-", "workshop-pool ", 6 * 60 * 60, 100, "1"⟩,
    ⟨"wdl-cli-integration", .ns, "cli-it-", "cli live integration ", 60 * 60, 50, "1"⟩]

def resolveDelegatedIssueTemplate (templateId : String) :
    Except AuthPolicyError DelegatedIssueTemplate :=
  match delegatedIssueTemplates.find? (·.id = templateId) with
  | some template => .ok template
  | none => refused 400 "invalid_template" ("template \"" ++ templateId ++ "\" does not exist")

def renderDelegatedIssueLabel (template : DelegatedIssueTemplate) (ns : Ns) : String :=
  template.labelText ++ ns

/-- `ISSUE_TEMPLATE_ID_RE`. -/
def isIssueTemplateId (id : String) : Bool :=
  id.toList.head?.any Char.isLower && id.toList.all (fun c => isNsChar c || c = '-')
    && decide (id.length ≤ 64)

/-- The ids of a list, each of them once, if they all are ids. -/
def collectTemplateIds : List String → List String → Except AuthPolicyError (List String)
  | ids, [] => .ok ids
  | ids, item :: rest =>
    if isIssueTemplateId item then
      collectTemplateIds (if item ∈ ids then ids else ids ++ [item]) rest
    else refused 400 "invalid_template_request"
      "template id must match /^[a-z][a-z0-9-]\x7b0,63\x7d$/"

def validateIssueTemplatesInput (value : Option (List String)) :
    Except AuthPolicyError (List String) :=
  match value with
  | none | some [] => refused 400 "invalid_template_request"
      "issueTemplates must be a non-empty array of template ids"
  | some items =>
    if 32 < items.length then refused 400 "invalid_template_request"
      "issueTemplates must contain at most 32 template ids"
    else collectTemplateIds [] items

def parseStoredIssueTemplates (stored : Option (List String)) :
    Except AuthPolicyError (List String) :=
  match stored with
  | none => refused 503 "invalid_issue_templates" "issuer token record is missing issue_templates"
  | some items =>
    match validateIssueTemplatesInput (some items) with
    | .ok ids => .ok ids
    | .error _ =>
      refused 503 "invalid_issue_templates" "issuer token record has invalid issue_templates"

/-! ## Checks of inputs and records -/

def assertTenantNs (ns : Option Ns) : Except AuthPolicyError Ns :=
  match ns with
  | none | some "" => refused 400 "missing_ns" "ns is required"
  | some ns =>
    if isValidTenantNs ns then .ok ns
    else if isReservedNs ns then
      refused 400 "reserved_ns" ("ns \"" ++ ns ++ "\" is reserved (ops-only)")
    else if ns ∈ reservedTenantNs then
      refused 400 "reserved_tenant_ns" ("ns \"" ++ ns ++ "\" is a reserved tenant name")
    else refused 400 "invalid_ns"
      ("ns must match [a-z0-9](?:[a-z0-9-]\x7b0,61\x7d[a-z0-9])?, got \"" ++ ns ++ "\"")

def validateIssueInput (kind : Option String) (ns : Option Ns) :
    Except AuthPolicyError (Role × Option Ns) :=
  let name := kind.getD "ns"
  match Role.ofText name with
  | some .ops => refused 400 "ops_not_issuable" "ops tokens are bootstrap-only"
  | none => refused 400 "unknown_role" ("unknown role \"" ++ name ++ "\"")
  | some role =>
    match role.boundNsKind with
    | .tenant => (assertTenantNs ns).map fun ns => (role, some ns)
    | .platformTier =>
      match ns with
      | some ns =>
        if ns ∈ platformTierReservedNs then .ok (role, some ns)
        else refused 400 "invalid_bound_ns"
          ("role \"" ++ name ++
            "\" must bind to a platform-tier reserved ns (one of: __platform__)")
      | none => refused 400 "invalid_bound_ns"
          ("role \"" ++ name ++
            "\" must bind to a platform-tier reserved ns (one of: __platform__)")
    | .none =>
      if ns.isSome then refused 400 "role_no_ns"
        ("role \"" ++ name ++ "\" is not namespace-bound; ns must not be set")
      else .ok (role, none)

/-- The time at which a token is to expire: none, a text that names no time, or a time. -/
inductive ExpiresAt
  | absent
  | malformed
  | at (ms : ℕ)
  deriving DecidableEq, Repr

def validateExpiresAt (value : ExpiresAt) (now : ℕ) : Except AuthPolicyError (Option ℕ) :=
  match value with
  | .absent => .ok none
  | .malformed => refused 400 "invalid_expires_at" "expiresAt must be ISO-8601 UTC string"
  | .at ms =>
    if ms ≤ now then refused 400 "expired_at_in_past" "expiresAt must be in the future"
    else .ok (some ms)

/-- The check of a stored record, with the reason of a refusal. -/
def validateRecordShape (record : TokenRecord) : Except String Unit :=
  match record.kind.boundNsKind with
  | .tenant => if record.ns.any isValidTenantNs then .ok () else .error "invalid_record_ns"
  | .platformTier =>
    if record.ns.any (· ∈ platformTierReservedNs) then .ok () else .error "invalid_record_ns"
  | .none =>
    if record.ns.isSome then .error "invalid_record_ns"
    else if record.kind = .tokenIssuer then
      match parseStoredIssueTemplates record.issueTemplates with
      | .ok _ => .ok ()
      | .error _ => .error "invalid_issue_templates"
    else .ok ()

end Wdl.Auth
