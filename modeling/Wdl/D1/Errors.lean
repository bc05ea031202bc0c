import Mathlib.Data.List.Infix

/-!
# Errors of the D1 service

An error of a D1 query is made in one component and passes through others before the tenant sees
it. It is thrown as a `D1ProtocolError`, which has a code, or as any other error, which only has a
name and a message. `classifyD1Error` turns it into a status, a code and a category, and decides
whether the request may be retried; `d1ErrorPayload` is what is sent in a `Response`, and three
payloads are made by the client itself when the transport fails.
-/

namespace Wdl.D1

/-- The machine codes of errors. -/
inductive Code
  | notOwner
  | ownerNotReady
  | ownerUnavailable
  | ownerRecordInvalid
  | ownerEndpointMissing
  | ownerEndpointInvalid
  | forwardHopExhausted
  | ownerClaimRaced
  | ownerTakeoverRaced
  | ownerRebalanceRaced
  | ownerReleaseRaced
  | ownerRenewRaced
  | ownerLeaseExpired
  | ownerLeaseTooShort
  | leaseBudgetExhausted
  | taskDraining
  | registryUnavailable
  | resultUnknown
  | limitExceeded
  | batchStatementError
  | quotaExceeded
  | timeout
  | invalidParameter
  | sqlError
  | internalError
  | backendUnavailable
  | invalidResponse
  | actorUnavailable
  /-- Any other code of a request that is refused. -/
  | other (text : String)
  deriving DecidableEq, Repr

def Code.text : Code → String
  | .notOwner => "not-owner"
  | .ownerNotReady => "owner-not-ready"
  | .ownerUnavailable => "owner-unavailable"
  | .ownerRecordInvalid => "owner-record-invalid"
  | .ownerEndpointMissing => "owner-endpoint-missing"
  | .ownerEndpointInvalid => "owner-endpoint-invalid"
  | .forwardHopExhausted => "forward-hop-exhausted"
  | .ownerClaimRaced => "owner-claim-raced"
  | .ownerTakeoverRaced => "owner-takeover-raced"
  | .ownerRebalanceRaced => "owner-rebalance-raced"
  | .ownerReleaseRaced => "owner-release-raced"
  | .ownerRenewRaced => "owner-renew-raced"
  | .ownerLeaseExpired => "owner-lease-expired"
  | .ownerLeaseTooShort => "owner-lease-too-short"
  | .leaseBudgetExhausted => "lease-budget-exhausted"
  | .taskDraining => "task-draining"
  | .registryUnavailable => "registry-unavailable"
  | .resultUnknown => "result-unknown"
  | .limitExceeded => "limit-exceeded"
  | .batchStatementError => "batch-statement-error"
  | .quotaExceeded => "quota-exceeded"
  | .timeout => "timeout"
  | .invalidParameter => "invalid-parameter"
  | .sqlError => "sql-error"
  | .internalError => "internal-error"
  | .backendUnavailable => "backend-unavailable"
  | .invalidResponse => "invalid-response"
  | .actorUnavailable => "d1_actor_unavailable"
  | .other text => text

/-- The codes that say that the owner of a database is changing. -/
def d1OwnershipCodes : List Code :=
  [.notOwner, .ownerNotReady, .ownerUnavailable, .ownerRecordInvalid, .ownerEndpointMissing,
    .ownerEndpointInvalid, .forwardHopExhausted, .ownerClaimRaced, .ownerTakeoverRaced,
    .ownerRebalanceRaced, .ownerReleaseRaced, .ownerRenewRaced, .ownerLeaseExpired,
    .ownerLeaseTooShort, .leaseBudgetExhausted, .taskDraining]

inductive Category
  | ownership
  | resultUnknown
  | limit
  | invalidRequest
  | quota
  | timeout
  | sql
  | internal
  deriving DecidableEq, Repr

/-- An error with a code. The last four fields are those of a failed statement of a batch. -/
structure D1ProtocolError where
  status : ℕ
  code : Code
  message : String
  statementIndex : Option ℕ := none
  causeCode : Option Code := none
  category : Option Category := none
  retryable : Bool := false
  deriving DecidableEq, Repr

/-- What is thrown: an error with a code, or any other error. -/
inductive Thrown
  | protocol (e : D1ProtocolError)
  | error (name message : String)
  deriving DecidableEq, Repr

/-! ## Classification -/

/-- One of the words occurs in the text, in upper or lower case. -/
def mentions (words : List String) (text : String) : Bool :=
  words.any fun word => decide (word.toList <:+: text.toList.map Char.toLower)

def errorMessage : Thrown → String
  | .protocol e => if e.message = "" then "D1 operation failed" else e.message
  | .error _ message => if message = "" then "D1 operation failed" else message

structure ClassifiedD1Error where
  status : ℕ
  code : Code
  category : Category
  retryable : Bool
  message : String
  deriving DecidableEq, Repr

/-- The classification of an error with a code. -/
def classifyProtocolError (e : D1ProtocolError) (message : String) : ClassifiedD1Error :=
  if e.code = .batchStatementError then
    ⟨e.status, e.code, e.category.getD .sql, e.retryable, message⟩
  else if e.code ∈ d1OwnershipCodes then
    ⟨if 500 ≤ e.status then e.status else 503, e.code, .ownership, true,
      "D1 database is temporarily unavailable while ownership is changing; retry the request (" ++
        e.code.text ++ ")."⟩
  else if e.code = .registryUnavailable then
    ⟨503, e.code, .ownership, true, "D1 ownership registry is unavailable; retry the request."⟩
  else if e.code = .resultUnknown then
    ⟨503, e.code, .resultUnknown, false, message⟩
  else if e.code = .limitExceeded then
    ⟨e.status, e.code, .limit, false, message⟩
  else
    ⟨e.status, e.code, .invalidRequest, false, message⟩

/-- The classification of an error without a code, by its message. -/
def classifyMessage (message : String) : ClassifiedD1Error :=
  if mentions ["quota", "sqlite_full", "database or disk is full", "too large"] message then
    ⟨507, .quotaExceeded, .quota, false, "D1 quota exceeded: " ++ message⟩
  else if mentions ["timeout", "timed out", "deadline", "aborterror"] message then
    ⟨504, .timeout, .timeout, false,
      "D1 request timed out; write outcome may be unknown, " ++
      "do not blindly retry non-idempotent requests."⟩
  else if mentions ["d1_type_error"] message then
    ⟨400, .invalidParameter, .invalidRequest, false, message⟩
  else if mentions ["d1_limit_error"] message then
    ⟨413, .limitExceeded, .limit, false, message⟩
  else if mentions ["sqlite_", "sqlite", "sql", "syntax error", "no such table",
    "constraint"] message then
    ⟨400, .sqlError, .sql, false, "SQL error: " ++ message⟩
  else
    ⟨500, .internalError, .internal, false, "D1 internal error."⟩

def classifyD1Error (err : Thrown) : ClassifiedD1Error :=
  match err with
  | .protocol e => classifyProtocolError e (errorMessage err)
  | .error _ _ => classifyMessage (errorMessage err)

/-! ## Payloads -/

/-- The payload of a failed query. -/
structure ErrorPayload where
  error : Code
  message : String
  category : Category
  retryable : Bool
  statementIndex : Option ℕ := none
  causeCode : Option Code := none
  deriving DecidableEq, Repr

def d1ErrorPayload (err : Thrown) : ErrorPayload :=
  let classified := classifyD1Error err
  let payload : ErrorPayload :=
    ⟨classified.code, classified.message, classified.category, classified.retryable, none, none⟩
  match err with
  | .protocol e => { payload with statementIndex := e.statementIndex, causeCode := e.causeCode }
  | .error _ _ => payload

def isD1QueryTimeoutError (name message : String) : Bool :=
  mentions ["timeout", "timed out", "deadline", "aborterror", "timeouterror"]
    (name ++ " " ++ message)

def d1QueryTimeoutPayload : ErrorPayload where
  error := .timeout
  message := "D1 request timed out; write outcome may be unknown, " ++
    "do not blindly retry non-idempotent requests."
  category := .timeout
  retryable := false

def d1BackendUnavailablePayload : ErrorPayload where
  error := .backendUnavailable
  message := "D1 backend is unavailable."
  category := .internal
  retryable := true

def d1ResultUnknownPayload : ErrorPayload where
  error := .resultUnknown
  message := "D1 owner response was lost after the request was sent; outcome may be unknown, " ++
    "do not blindly retry non-idempotent requests."
  category := .resultUnknown
  retryable := false

/-! ## Responses -/

/-- What a response carries. -/
inductive Body
  /-- The body cannot be read to its end. -/
  | broken
  /-- The body is read, and is not the encoding of a payload. -/
  | undecodable
  /-- The result of a query. The results themselves are left out. -/
  | result
  /-- The payload of a failed query. -/
  | failure (p : ErrorPayload)
  deriving DecidableEq, Repr

/-- How the values of a payload are said to be encoded. -/
inductive ValueEncoding
  | native
  /-- There is no such header: the values are encoded as in older versions. -/
  | absent
  | unknown
  deriving DecidableEq, Repr

structure Response where
  status : ℕ
  /-- The content type is the one of answers to queries. -/
  d1Content : Bool
  /-- The headers say that the query has succeeded. -/
  successHeaders : Bool
  valueEncoding : ValueEncoding
  body : Body
  deriving DecidableEq, Repr

def Response.ok (r : Response) : Bool := decide (200 ≤ r.status ∧ r.status < 300)

def d1QuerySuccessResponse : Response := ⟨200, true, true, .native, .result⟩

def d1ErrorResponse (err : Thrown) : Response :=
  ⟨(classifyD1Error err).status, true, false, .absent, .failure (d1ErrorPayload err)⟩

/-- The response does not carry a payload. -/
def Response.Garbled (r : Response) : Prop :=
  r.d1Content = false ∨ r.body = .broken ∨ r.body = .undecodable

instance (r : Response) : Decidable r.Garbled :=
  inferInstanceAs (Decidable (r.d1Content = false ∨ r.body = .broken ∨ r.body = .undecodable))

/-! ## What may be retried -/

/-- The payload says that nothing has happened: the request may be retried, or its owner is
    changing. -/
def ErrorPayload.Clean (p : ErrorPayload) : Prop := p.retryable = true ∨ p.error ∈ d1OwnershipCodes

/-- Errors that say that nothing has happened. -/
def Thrown.Clean (err : Thrown) : Prop := (d1ErrorPayload err).Clean

/-- The response says that nothing has happened. -/
def Response.Clean (r : Response) : Prop := r.d1Content = true ∧ ∃ p, r.body = .failure p ∧ p.Clean

theorem Response.Garbled.not_clean {r : Response} (h : r.Garbled) : ¬ r.Clean := by
  rintro ⟨hcontent, p, hbody, -⟩
  rcases h with h | h | h
  · cases h.symm.trans hcontent
  · cases h.symm.trans hbody
  · cases h.symm.trans hbody

theorem clean_of_d1ErrorResponse {err : Thrown} (h : (d1ErrorResponse err).Clean) : err.Clean := by
  obtain ⟨-, p, hbody, hp⟩ := h
  cases hbody
  exact hp

/-- An error without a code never says so. -/
theorem Thrown.not_clean_error (name message : String) : ¬ (Thrown.error name message).Clean := by
  show ¬ ((classifyMessage _).retryable = true ∨ (classifyMessage _).code ∈ d1OwnershipCodes)
  unfold classifyMessage
  repeat' split
  all_goals simp [d1OwnershipCodes]

variable {e : D1ProtocolError}

/-- Apart from a failed statement of a batch, only ownership and its registry say so. -/
theorem Thrown.Clean.code (h : (Thrown.protocol e).Clean) :
    e.code = .batchStatementError ∨ e.code ∈ d1OwnershipCodes ∨ e.code = .registryUnavailable := by
  by_contra hne
  obtain ⟨hbatch, hne⟩ := not_or.1 hne
  obtain ⟨hown, hreg⟩ := not_or.1 hne
  have hclean : (classifyProtocolError e (errorMessage (.protocol e))).retryable = true ∨
      (classifyProtocolError e (errorMessage (.protocol e))).code ∈ d1OwnershipCodes := h
  unfold classifyProtocolError at hclean
  rw [if_neg hbatch, if_neg hown, if_neg hreg] at hclean
  split at hclean
  · exact hclean.elim Bool.noConfusion hown
  · split at hclean
    · exact hclean.elim Bool.noConfusion hown
    · exact hclean.elim Bool.noConfusion hown

theorem Thrown.not_clean_of_code {c : Code} (h : e.code = c)
    (hc : ¬ (c = .batchStatementError ∨ c ∈ d1OwnershipCodes ∨ c = .registryUnavailable)) :
    ¬ (Thrown.protocol e).Clean := by
  intro hclean
  have hcode := hclean.code
  rw [h] at hcode
  exact hc hcode

end Wdl.D1
