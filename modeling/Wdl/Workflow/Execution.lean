import Wdl.Workflow.Interface

/-!
# The calls of Runtime for the steps of a run

While Runtime runs a workflow it asks the service about each step: `claimStep`
whether to run a `step.do`, `commitStepSuccess` and `commitStepError` with what it
gave, `registerSleep` and `registerWait` for the steps that suspend the run. A step
that was completed or failed before is answered from its record.
-/

namespace Wdl.Workflow.Api

open ServiceM

/-! ## Requests -/

/-- A request of Runtime about a step, less the fields that name the instance. -/
structure StepRequest where
  generation : ℕ
  createdAtMs : ℕ
  runToken : ℕ
  ordinal : ℕ
  stepName : String
  nameCount : ℕ
  dependencies : List ℕ
  attempt : Option ℕ
  nonRetryable : Bool
  config : StepConfig
  output : Payload
  error : Payload
  dueAtMs : Option ℤ

def maxWorkflowStepNameBytes : ℕ := 512

def maxStepDependencies : ℕ := 1000

def maxWorkflowStepConfigBytes : ℕ := 64 * 1024

def inlineStepPayloadBytesMax : ℕ := 2 * 1024

/-- The dependencies are prior ordinals, each greater than the one before it. -/
def validateDependencies (ordinal : ℕ) : Option ℕ → List ℕ → Except WorkflowError Unit
  | _, [] => .ok ()
  | previous, dependency :: rest =>
    if ordinal ≤ dependency then
      .error (.invalidRequest "workflow step dependencies must reference prior ordinals")
    else if previous.any (dependency ≤ ·) then
      .error (.invalidRequest "workflow step dependencies must be unique and sorted")
    else validateDependencies ordinal (some dependency) rest

/-- `validate_step_request`, less the checks of the fields that name the instance. -/
def validateStepRequest (req : StepRequest) : Except WorkflowError Unit :=
  if req.stepName.isEmpty then .error (.invalidRequest "stepName must be non-empty")
  else if maxWorkflowStepNameBytes < req.stepName.utf8ByteSize then
    .error (.requestTooLarge "Workflow stepName exceeds the 512 byte limit")
  else if req.generation = 0 then
    .error (.invalidRequest "generation must be a positive integer")
  else if req.createdAtMs = 0 then
    .error (.invalidRequest "createdAtMs must be a positive integer")
  else if req.nameCount = 0 then
    .error (.invalidRequest "nameCount must be a positive integer")
  else if maxStepDependencies < req.dependencies.length then
    .error (.requestTooLarge "Workflow step dependencies exceed the 1000 edge limit")
  else
    match validateDependencies req.ordinal none req.dependencies with
    | .error e => .error e
    | .ok () =>
      if maxWorkflowStepConfigBytes < req.config.bytes then
        .error (.requestTooLarge "Workflow step config exceeds the 65536 byte limit")
      else .ok ()

/-- The record is of the step that the request is about. -/
def StepRequest.matches (req : StepRequest) (record : StepRecord) (kind : StepKind) : Bool :=
  record.ordinal = req.ordinal ∧ record.stepName = req.stepName ∧
    record.nameCount = req.nameCount ∧ record.dependencies = req.dependencies ∧
    record.kind = kind ∧ record.config = req.config

/-- `verify_step_record`. -/
def verifyStepRecord (req : StepRequest) (record : StepRecord) (kind : StepKind) :
    Except WorkflowError Unit :=
  if req.matches record kind then .ok ()
  else .error (.stepMismatch "Workflow step replay does not match stored step")

/-- `request_attempt`. -/
def requestAttempt (req : StepRequest) : Except WorkflowError ℕ :=
  if req.attempt.getD 1 = 0 then .error (.invalidRequest "attempt must be a positive integer")
  else .ok (req.attempt.getD 1)

/-- `inline_step_payload`. `null` is never stored inline. -/
def inlineStepPayload (p : Payload) : Option Payload :=
  if p.isNull then none else if p.bytes ≤ inlineStepPayloadBytesMax then some p else none

/-- `result_json`. -/
def resultJson (cfg : Service) (p : Payload) (kind : String) : Except WorkflowError Payload :=
  if cfg.resultLimit < p.bytes then
    .error (.requestTooLarge ("Workflow " ++ kind ++ " exceeds the " ++
      toString cfg.resultLimit ++ " byte limit"))
  else .ok p

/-- The error of a claim that the fence refused. -/
def activeClaimError : StepCode → WorkflowError
  | .expiredClaim => .invalidState "Workflow run claim lease has expired"
  | .inactiveInstance => .invalidState "Workflow instance is not active"
  | .corruptClaim => .invalidState "Workflow run claim lease is corrupt"
  | _ => .invalidState "Workflow run claim does not match instance state"

/-- `aggregate_payload_error`. -/
def aggregatePayloadError (cfg : Service) : WorkflowError :=
  .requestTooLarge ("Workflow instance payloads exceed the " ++ toString cfg.payloadLimit ++
    " byte limit")

/-- `ensure_step_script_ok`. -/
def ensureStepScriptOk (cfg : Service) : StepCode → Except WorkflowError Unit
  | .ok => .ok ()
  | .payloadLimit => .error (aggregatePayloadError cfg)
  | code => .error (activeClaimError code)

/-! ## Retries -/

def defaultStepRetryLimit : ℕ := 1

def maxStepRetryLimit : ℕ := 100

def defaultStepRetryDelayMs : ℤ := 10000

def maxStepRetryDelayMs : ℤ := 3600000

/-- How the delay grows with the attempts. -/
inductive Backoff
  | constant | linear | exponential
  deriving DecidableEq, Repr

/-- How often a step is attempted, and how long it waits in between. -/
structure StepRetryPolicy where
  limit : ℕ
  delayMs : ℕ
  backoff : Backoff
  deriving DecidableEq, Repr

/-- The limit of the retry settings. -/
def retryLimit : NumberField → Except WorkflowError ℕ
  | .absent => .ok defaultStepRetryLimit
  | .other => .error (.invalidRequest "workflow step retry limit must be an integer")
  | .integer n =>
    if n < 0 ∨ 2 ^ 64 ≤ n then
      .error (.invalidRequest "workflow step retry limit must be an integer")
    else if 2 ^ 32 ≤ n then .error (.requestTooLarge "workflow step retry limit is too large")
    else if n < 1 ∨ maxStepRetryLimit < n then
      .error (.requestTooLarge "workflow step retry limit must be in [1, 100]")
    else .ok n.toNat

/-- The delay of the retry settings. -/
def retryDelayMs : NumberField → Except WorkflowError ℕ
  | .absent => .ok defaultStepRetryDelayMs.toNat
  | .other => .error (.invalidRequest "workflow step retry delayMs must be an integer")
  | .integer n =>
    if n < -2 ^ 63 ∨ 2 ^ 63 ≤ n then
      .error (.invalidRequest "workflow step retry delayMs must be an integer")
    else if n < 0 ∨ maxStepRetryDelayMs < n then
      .error (.requestTooLarge "workflow step retry delayMs must be in [0, 3600000]")
    else .ok n.toNat

/-- The backoff of the retry settings. -/
def retryBackoff (backoff : Option String) : Except WorkflowError Backoff :=
  match backoff.getD "exponential" with
  | "constant" => .ok .constant
  | "linear" => .ok .linear
  | "exponential" => .ok .exponential
  | _ => .error (.invalidRequest
      "workflow step retry backoff must be constant, linear, or exponential")

/-- `retry_policy`. -/
def retryPolicy (config : StepConfig) : Except WorkflowError StepRetryPolicy :=
  match config.retries with
  | none => .ok ⟨defaultStepRetryLimit, defaultStepRetryDelayMs.toNat, .exponential⟩
  | some none => .error (.invalidRequest "workflow step retries config must be an object")
  | some (some r) => do
    let limit ← retryLimit r.limit
    let delayMs ← retryDelayMs (if r.delayMs = .absent then r.delay else r.delayMs)
    let backoff ← retryBackoff r.backoff
    .ok ⟨limit, delayMs, backoff⟩

/-- `retry_due_at_ms`, which stays at the greatest integer of 64 bits. -/
def retryDueAtMs (now : ℕ) (policy : StepRetryPolicy) (attempt : ℕ) : ℕ :=
  let multiplier := match policy.backoff with
    | .constant => 1
    | .linear => attempt
    | .exponential => 2 ^ min (attempt - 1) 20
  min (now + min (policy.delayMs * multiplier) (2 ^ 63 - 1)) (2 ^ 63 - 1)

/-! ## Reading -/

/-- What the service answers Runtime about a step. -/
inductive StepAnswer
  | run (attempt : Option ℕ)
  | complete (output : Option ℕ)
  | failed (error : Option ℕ)
  | waiting (dueAtMs : Option ℕ)
  deriving DecidableEq

/-- The answer of a fenced read, whose refusal is an error. -/
def claimed {α : Type} : Except StepCode α → ServiceM α
  | .ok a => .ret a
  | .error code => .fail (activeClaimError code)

/-- `read_step_record_for_claim`. -/
def readStepRecordForClaim (req : StepRequest) : ServiceM (Option (JsonText StepRecord)) := do
  let t ← now
  let reply ← eval (.readStepRecord req.generation req.runToken t req.ordinal)
  claimed reply

/-- `read_step_payload_for_claim`. -/
def readStepPayloadForClaim (req : StepRequest) (ref : PayloadRef) :
    ServiceM (Option Payload) := do
  let t ← now
  let reply ← eval (.readStepPayload req.generation req.runToken t ref)
  claimed reply

/-- The text of a payload reference. -/
def refText : PayloadRef → String
  | .params => "params"
  | .output => "output"
  | .error => "error"
  | .stepOutput n => "step:" ++ toString n ++ ":output"
  | .stepError n => "step:" ++ toString n ++ ":error"
  | .stepEvent n => "step:" ++ toString n ++ ":event"
  | .event id => "event:" ++ toString id

/-- `parse_payload_json`. -/
def parsePayloadJson (cfg : Service) (p : Payload) : Except WorkflowError Payload :=
  if cfg.paramsLimit < p.bytes then
    .error (.invalidState ("Workflow payload exceeds the " ++ toString cfg.paramsLimit ++
      " byte limit"))
  else .ok p

/-- `parse_payload_ref`. -/
def parsePayloadRef (cfg : Service) (raw : Option Payload) (ref : PayloadRef) :
    Except WorkflowError Payload :=
  match raw with
  | none => .error (.payloadMissing ("Workflow payload reference " ++ refText ref ++ " is missing"))
  | some p => parsePayloadJson cfg p

/-- The outcome of a finished step: inline in its record, or behind its reference.
    The two texts are those of the errors of a record without reference, and of a
    reference to nothing. -/
def storedOutcome (req : StepRequest) (inline : Option Payload) (ref : Option PayloadRef)
    (noRef what : String) : ServiceM ℕ :=
  match inline with
  | some p => .ret p.val
  | none =>
    match ref with
    | none => .fail (.invalidState noRef)
    | some r => do
      let raw ← readStepPayloadForClaim req r
      match raw with
      | none => .fail (.payloadMissing (what ++ " payload " ++ refText r ++ " is missing"))
      | some p => .ret p.val

/-! ## `step.do` -/

/-- `restore_waiting_due_index`. -/
def restoreWaitingDueIndex (req : StepRequest) (dueAtMs : ℕ) : ServiceM Bool := do
  let t ← now
  let code : StepCode ← eval (.restoreWaitingDue req.generation req.runToken t dueAtMs)
  match code with
  | .ok => .ret true
  | .staleClaim => .ret false
  | code => .fail (activeClaimError code)

/-- `claim_step`, once there is a record of the step. -/
def answerFromRecord (req : StepRequest) (record : StepRecord) : ServiceM StepAnswer :=
  match record.status with
  | .completed => do
    let v ← storedOutcome req record.output record.outputRef
      "Workflow completed step is missing output ref" "Workflow step output"
    .ret (.complete (some v))
  | .failed => do
    let v ← storedOutcome req record.error record.errorRef
      "Workflow failed step is missing error ref" "Workflow step error"
    .ret (.failed (some v))
  | .waiting =>
    match record.dueAtMs with
    | none => .fail (.invalidState "Workflow waiting step is missing dueAtMs")
    | some due => do
      let t ← now
      if t < due then do
        let _ ← restoreWaitingDueIndex req due
        .ret (.waiting none)
      else .ret (.run (some (max (record.attempt + 1) 1)))

/-- `claim_step`. -/
def claimStep (req : StepRequest) : ServiceM StepAnswer := do
  ofExcept (validateStepRequest req)
  let raw ← readStepRecordForClaim req
  match raw with
  | none => .ret (.run none)
  | some raw => do
    ofExcept (verifyStepRecord req raw.val .doStep)
    answerFromRecord req raw.val

/-- The record of a step at the ordinal of the request. -/
def StepRequest.record (req : StepRequest) (kind : StepKind) (status : StepStatus) (attempt : ℕ) :
    StepRecord where
  ordinal := req.ordinal
  stepName := req.stepName
  nameCount := req.nameCount
  dependencies := req.dependencies
  kind := kind
  config := req.config
  status := status
  attempt := attempt
  outputRef := none
  errorRef := none
  output := none
  error := none
  completedAtMs := none
  failedAtMs := none
  dueAtMs := none

/-- The record of a `step.do` that succeeded. -/
def successRecord (req : StepRequest) (attempt completedAtMs : ℕ) : StepRecord :=
  { req.record .doStep .completed attempt with
    outputRef :=
      if (inlineStepPayload req.output).isNone then some (.stepOutput req.ordinal) else none
    output := inlineStepPayload req.output
    completedAtMs := some completedAtMs }

/-- `commit_step_success`. -/
def commitStepSuccess (cfg : Service) (req : StepRequest) : ServiceM StepAnswer := do
  ofExcept (validateStepRequest req)
  let attempt ← ofExcept (requestAttempt req)
  let json ← ofExcept (resultJson cfg req.output "step output")
  let t ← now
  let record := successRecord req attempt t
  let code ← eval (.commitStepSuccess req.generation req.runToken t req.ordinal record.outputRef
    json (cfg.stepRecordJson record) (cfg.summaryBytes record))
  ofExcept (ensureStepScriptOk cfg code)
  .ret (.complete none)

/-- The record of a `step.do` that failed: for good, or until its retry is due. -/
def errorRecord (req : StepRequest) (attempt now : ℕ) (dueAtMs : Option ℕ) : StepRecord :=
  { req.record .doStep (if dueAtMs.isNone then .failed else .waiting) attempt with
    errorRef := if (inlineStepPayload req.error).isNone then some (.stepError req.ordinal) else none
    error := inlineStepPayload req.error
    failedAtMs := if dueAtMs.isNone then some now else none
    dueAtMs := dueAtMs }

/-- `commit_step_error`. -/
def commitStepError (cfg : Service) (req : StepRequest) : ServiceM StepAnswer := do
  ofExcept (validateStepRequest req)
  let attempt ← ofExcept (requestAttempt req)
  let policy ← ofExcept (retryPolicy req.config)
  let json ← ofExcept (resultJson cfg req.error "step error")
  let t ← now
  let due := if req.nonRetryable ∨ policy.limit ≤ attempt then none
    else some (retryDueAtMs t policy attempt)
  let record := errorRecord req attempt t due
  let code ← eval (.commitStepError req.generation req.runToken t req.ordinal record.errorRef
    json (cfg.stepRecordJson record) (cfg.summaryBytes record) due)
  ofExcept (ensureStepScriptOk cfg code)
  .ret (if due.isNone then .failed none else .waiting due)

end Wdl.Workflow.Api
