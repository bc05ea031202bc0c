import Wdl.Workflow.Tick

/-!
# The requests of tenants

Instances are created, sent events, paused, resumed, terminated and restarted on
request. A transition reads the state, and its script is fenced by the generation
and the creation time that were read.
-/

namespace Wdl.Workflow.Api

open ServiceM

/-! ## Reservations -/

def pendingCreateTtlMs : ℕ := 30000

def pendingCreateWaitAttempts : ℕ := 20

/-- `pending_create_expired`. -/
def pendingCreateExpired (s : State) (now : ℕ) : Bool := s.pendingExpiresAtMs.all (· ≤ now)

/-- `cleanup_expired_pending_create`, of an instance that is reserved. -/
def cleanupExpiredPendingCreate (s : State) : ServiceM Bool := do
  let t ← now
  if pendingCreateExpired s t = false then .ret false
  else
    match s.pendingCreateToken with
    | none => .fail (.invalidState "Workflow pending create token is missing")
    | some token => eval (.cleanupPendingCreate token s.frozenVersion)

/-- `read_public_state`. A reserved instance is not shown, and is removed when its
    reservation has expired. -/
def readPublicState : ServiceM (Option State) := do
  let state : Option State ← eval .readState
  match state with
  | none => .ret none
  | some s =>
    if s.status ≠ .pendingCreate then .ret (some s)
    else do
      let _ ← cleanupExpiredPendingCreate s
      .ret none

/-- `wait_for_public_create_state`. -/
def waitForPublicCreateState : ℕ → ServiceM (Option State)
  | 0 => .fail (.invalidState "Workflow instance create is still pending")
  | attempts + 1 => do
    let state : Option State ← eval .readState
    match state with
    | none => .ret none
    | some s =>
      if s.status ≠ .pendingCreate then .ret (some s)
      else do
        let removed ← cleanupExpiredPendingCreate s
        if removed then .ret none else waitForPublicCreateState attempts

/-! ## Creation -/

/-- A request to create an instance. -/
structure CreateRequest where
  params : Payload
  successRetentionMs : ℕ
  errorRetentionMs : ℕ

/-- What a create answers: the status, and whether this request created the instance. -/
structure CreateInstanceOutcome where
  status : Status
  created : Bool

/-- The checks between reserving and publishing an instance. -/
def recheckCreate (version : ℕ) : ServiceM Unit := do
  askControl .workerNotDeleting
  askControl (.activeWorkflowCurrent version)
  askControl .workflowDef

/-- Check again, then publish the reserved instance or remove it. -/
def publishCreate (token version : ℕ) : ServiceM CreateInstanceOutcome := do
  let checked ← (recheckCreate version).attempt
  match checked with
  | .error e => do
    let _ ← eval (.cleanupPendingCreate token version)
    .fail e
  | .ok () => do
    let t ← now
    let finalized : Bool ← eval (.finalizeCreateInstance token t)
    if finalized then .ret ⟨.queued, true⟩
    else .fail (.invalidState "Workflow instance create did not finalize")

/-- Reserve the instance, once more if the reservation that was in the way is gone. -/
def reserveInstance (a : CreateArgs) : ServiceM (Option State) := do
  let created : Bool ← eval (.createInstance a)
  if created then .ret none
  else do
    let existing ← waitForPublicCreateState pendingCreateWaitAttempts
    match existing with
    | some s => .ret (some s)
    | none => do
      let created : Bool ← eval (.createInstance a)
      if created then .ret none
      else do
        let existing ← waitForPublicCreateState pendingCreateWaitAttempts
        match existing with
        | some s => .ret (some s)
        | none => .fail (.invalidState "Workflow instance create raced and did not persist state")

/-- `create_instance_after_delete_preflight`, under the pending token of the process. -/
def createInstanceAfterDeletePreflight (cfg : Service) (token version : ℕ) (req : CreateRequest) :
    ServiceM CreateInstanceOutcome :=
  if cfg.paramsLimit < req.params.bytes then
    .fail (.requestTooLarge "Workflow params exceed the 1048576 byte limit")
  else do
    let t ← now
    let existing ← reserveInstance
      { frozenVersion := version
        now := t
        successRetentionMs := req.successRetentionMs
        errorRetentionMs := req.errorRetentionMs
        params := req.params
        pendingExpiresAt := t + pendingCreateTtlMs
        pendingToken := token }
    match existing with
    | some s => .ret ⟨s.status, false⟩
    | none => publishCreate token version

/-- `create_instance`. -/
def createInstance (cfg : Service) (token : ℕ) (req : CreateRequest) :
    ServiceM CreateInstanceOutcome := do
  let version ← askControl .activeVersion
  askControl .workflowDef
  askControl .workerNotDeleting
  createInstanceAfterDeletePreflight cfg token version req

/-- `create_batch`, as far as one of its instances is concerned: an instance that is
    visible is passed over, and one that is not is created under the version that was active
    when the batch came in. -/
def createBatch (cfg : Service) (token : ℕ) (req : CreateRequest) :
    ServiceM (Option CreateInstanceOutcome) := do
  let version ← askControl .activeVersion
  askControl .workflowDef
  let existing ← readPublicState
  match existing with
  | some _ => .ret none
  | none => do
    askControl .workerNotDeleting
    let outcome ← createInstanceAfterDeletePreflight cfg token version req
    .ret (some outcome)

/-! ## Events -/

def maxWorkflowEventTypeBytes : ℕ := 512

/-- `event_type_from_value`. -/
def eventTypeFromValue (type : Option EventType) : Except WorkflowError EventType :=
  match type with
  | none => .error (.invalidRequest "Workflow event type is required")
  | some type =>
    if type.isEmpty then .error (.invalidRequest "Workflow event type must be non-empty")
    else if maxWorkflowEventTypeBytes < type.length then
      .error (.requestTooLarge "Workflow event type exceeds the 512 byte limit")
    else .ok type

/-- `event_payload_json`. -/
def eventPayloadJson (cfg : Service) (payload : Payload) : Except WorkflowError Payload :=
  if cfg.eventLimit < payload.bytes then
    .error (.requestTooLarge ("Workflow event payload exceeds the " ++ toString cfg.eventLimit ++
      " byte limit"))
  else .ok payload

/-- `read_send_event_state`. -/
def readSendEventState : ServiceM (Option State) := do
  let state : Option State ← eval .readState
  match state with
  | none => .ret none
  | some s =>
    if s.status ≠ .pendingCreate then .ret (some s)
    else do
      let t ← now
      if pendingCreateExpired s t then readPublicState else .ret none

/-- The errors of `SEND_EVENT_SCRIPT`. -/
def ensureSent (cfg : Service) : SendReply → Except WorkflowError Unit
  | .ok => .ok ()
  | .notFound => .error (.notFound "Workflow instance not found")
  | .payloadLimit => .error (aggregatePayloadError cfg)
  | .terminal => .error (.invalidState "Workflow instance is already terminal")
  | .stale => .error (.conflict "Workflow instance changed before event delivery")

/-- `send_event`. -/
def sendEvent (cfg : Service) (type : Option EventType) (payload : Payload) : ServiceM Unit := do
  let type ← ofExcept (eventTypeFromValue type)
  let payload ← ofExcept (eventPayloadJson cfg payload)
  let existing ← readSendEventState
  match existing with
  | none => .fail (.notFound "Workflow instance not found")
  | some s =>
    if s.status.terminal then .fail (.invalidState "Workflow instance is already terminal")
    else do
      let t ← now
      let reply ← eval (.sendEvent payload type (eventTypeIndexPrefix type) t s.generation
        s.createdAtMs)
      ofExcept (ensureSent cfg reply)

/-! ## Transitions -/

/-- `stale_transition_response`. -/
def staleTransitionResponse : ServiceM Status := do
  let current ← readPublicState
  match current with
  | none => .fail (.notFound "Workflow instance not found")
  | some s => .ret s.status

/-- A transition of a visible instance: `settled` answers the states on which there
    is nothing to do, and `script` is the script to run. -/
def transition (settled : State → Bool) (script : State → ServiceM Bool) (next : Status) :
    ServiceM Status := do
  let existing ← readPublicState
  match existing with
  | none => .fail (.notFound "Workflow instance not found")
  | some s =>
    if settled s then .ret s.status
    else do
      let updated ← script s
      if updated then .ret next else staleTransitionResponse

/-- `pause_instance`. -/
def pauseInstance : ServiceM Status :=
  transition (fun s => s.status.terminal || s.status = .paused)
    (fun s => eval (.pause s.generation (s.generation + 1) s.createdAtMs)) .paused

/-- `resume_instance`. -/
def resumeInstance : ServiceM Status :=
  transition (fun s => s.status.terminal || s.status ≠ .paused)
    (fun s => eval (.resume s.generation (s.generation + 1) s.createdAtMs)) .queued

/-- `terminate_instance`. -/
def terminateInstance : ServiceM Status :=
  transition (fun s => s.status.terminal)
    (fun s => do
      let t ← now
      eval (.terminate s.generation (s.generation + 1) s.createdAtMs (t + s.errorRetentionMs)
        s.frozenVersion)) .terminated

/-! ## Restart -/

/-- `discard_pending_restart`. Removing the marker is best-effort. -/
def discardPendingRestart (marker version : ℕ) : ServiceM Unit := do
  let _ ← (eval (.removePendingRestart marker version)).attempt (δ := WorkflowError)
  .ret ()

/-- The checks between marking a restart and making it. -/
def recheckRestart (version : ℕ) : ServiceM Unit := do
  askControl (.activeWorkflowCurrent version)
  askControl .workflowDef
  askControl .workerNotDeleting

/-- Run the restart script, and what its reply means. -/
def runRestart (marker version : ℕ) (s : State) (params : Payload) : ServiceM Status := do
  let t ← now
  let reply ← (eval (.restart marker s.generation (s.generation + 1) s.createdAtMs s.frozenVersion
    version t params)).attempt (δ := WorkflowError)
  match reply with
  | .error e => do
    discardPendingRestart marker version
    .fail e
  | .ok reply =>
    match reply with
    | .leaseExpired => .fail (.conflict "Workflow restart target lease expired; retry restart")
    | .stale => do
      discardPendingRestart marker version
      staleTransitionResponse
    | .restarted => .ret .queued

/-- `restart_instance`, with a marker named after the process. -/
def restartInstance (cfg : Service) (marker : ℕ) : ServiceM Status := do
  let version ← askControl .activeVersion
  let existing ← readPublicState
  match existing with
  | none => .fail (.notFound "Workflow instance not found")
  | some s => do
    let params : Option Payload ← eval (.readPayload .params)
    match params with
    | none => .fail (.payloadMissing "Workflow params payload is missing")
    | some params => do
      let params ← ofExcept (parsePayloadJson cfg params)
      askControl .workerNotDeleting
      eval (.createPendingRestart marker version)
      let checked ← (recheckRestart version).attempt (δ := WorkflowError)
      match checked with
      | .error e => do
        discardPendingRestart marker version
        .fail e
      | .ok () => runRestart marker version s params

end Wdl.Workflow.Api
