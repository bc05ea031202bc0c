import Wdl.Workflow.Execution

/-!
# Sleeps, waits and events

`registerSleep` and `registerWait` suspend a run, until a time or until an event
of a type. A wait first looks for a buffered event (`findBufferedEvent`), registers
itself when there is none, and looks again. An event that is found is consumed by
the commit that completes the wait.
-/

namespace Wdl.Workflow.Api

open ServiceM

/-! ## Sleeps -/

/-- `sleep_kind`. -/
def sleepKind (req : StepRequest) : Except WorkflowError StepKind :=
  match req.config.type with
  | some .sleep => .ok .sleep
  | some .sleepUntil => .ok .sleepUntil
  | _ => .error (.invalidRequest "Workflow sleep step kind is invalid")

/-- `commit_step_record`. -/
def commitStepRecord (cfg : Service) (req : StepRequest) (a : StepRecordCommit) :
    ServiceM Unit := do
  let t ← now
  let code ← eval (.commitStepRecord req.generation req.runToken t req.ordinal a)
  ofExcept (ensureStepScriptOk cfg code)

/-- `completed_sleep_record`. -/
def completedSleepRecord (req : StepRequest) (kind : StepKind) (dueAtMs now : ℕ) : StepRecord :=
  { req.record kind .completed 1 with completedAtMs := some now, dueAtMs := some dueAtMs }

/-- `waiting_sleep_record`. -/
def waitingSleepRecord (req : StepRequest) (kind : StepKind) (dueAtMs : ℕ) : StepRecord :=
  { req.record kind .waiting 1 with dueAtMs := some dueAtMs }

/-- The commit of a sleep. Without a due time the instance goes on running. -/
def sleepCommit (cfg : Service) (record : StepRecord) (dueAtMs : Option ℕ) :
    StepRecordCommit where
  record := cfg.stepRecordJson record
  summary := cfg.summaryBytes record
  stateStatus := if dueAtMs.isSome then .waiting else .running
  dueAtMs := dueAtMs
  payloadRef := none
  payloadJson := none
  eventRecord := none
  eventIndexMember := none
  waitingEventIndexPrefix := none

/-- `write_sleep_record`. -/
def writeSleepRecord (cfg : Service) (req : StepRequest) (record : StepRecord)
    (dueAtMs : Option ℕ) : ServiceM Unit :=
  commitStepRecord cfg req (sleepCommit cfg record dueAtMs)

/-- Complete a sleep that is due. -/
def completeSleep (cfg : Service) (req : StepRequest) (kind : StepKind) (dueAtMs : ℕ) :
    ServiceM StepAnswer := do
  let t ← now
  writeSleepRecord cfg req (completedSleepRecord req kind dueAtMs t) none
  .ret (.complete none)

/-- Leave the instance waiting for a sleep. -/
def suspendSleep (cfg : Service) (req : StepRequest) (record : StepRecord) (dueAtMs : ℕ) :
    ServiceM StepAnswer := do
  writeSleepRecord cfg req record (some dueAtMs)
  .ret (.waiting none)

/-- `due_at_ms` of a request, which must be positive when it is there. -/
def requestDueAtMs (req : StepRequest) : Except WorkflowError (Option ℕ) :=
  match req.dueAtMs with
  | none => .ok none
  | some due =>
    if due ≤ 0 then .error (.invalidRequest "dueAtMs must be a positive integer")
    else .ok (some due.toNat)

/-- The due time of a sleep, which must be there. -/
def sleepDueAtMs (req : StepRequest) : Except WorkflowError ℕ :=
  match requestDueAtMs req with
  | .error e => .error e
  | .ok none => .error (.invalidRequest "dueAtMs is required")
  | .ok (some due) => .ok due

/-- `register_sleep`. -/
def registerSleep (cfg : Service) (req : StepRequest) : ServiceM StepAnswer := do
  ofExcept (validateStepRequest req)
  let kind ← ofExcept (sleepKind req)
  let due ← ofExcept (sleepDueAtMs req)
  let raw ← readStepRecordForClaim req
  let t ← now
  match raw with
  | none =>
    if due ≤ t then completeSleep cfg req kind due
    else suspendSleep cfg req (waitingSleepRecord req kind due) due
  | some raw => do
    ofExcept (verifyStepRecord req raw.val kind)
    match raw.val.status with
    | .completed => .ret (.complete none)
    | .waiting =>
      match raw.val.dueAtMs with
      | none => .fail (.invalidState "Workflow waiting sleep step is missing dueAtMs")
      | some stored =>
        if t < stored then suspendSleep cfg req raw.val stored
        else completeSleep cfg req kind stored
    | .failed => .fail (.invalidState "Workflow sleep step is not waiting or completed")

/-! ## Finding an event -/

/-- `cleanup_stale_event_index_members`. -/
def cleanupStaleEventIndexMembers (cfg : Service) (req : StepRequest)
    (observations : List StaleEventIndexObservation) : ServiceM Unit :=
  if observations.isEmpty then .ret ()
  else do
    let t ← now
    let code ← eval (.cleanupStaleEventIndex req.generation req.createdAtMs req.runToken t
      observations)
    ofExcept (ensureStepScriptOk cfg code)

/-- The members of a page of the index with the event that each of them names. -/
def eventCandidates (members : List (List Char)) : List (List Char × ℕ) :=
  members.filterMap fun m => (eventIdFromIndexMember m).map (m, ·)

/-- The members of a page that name no event. -/
def malformedMembers (members : List (List Char)) : List StaleEventIndexObservation :=
  members.filterMap fun m =>
    if (eventIdFromIndexMember m).isNone then some ⟨m, .malformedMember⟩ else none

/-- Walk a page up to its first unconsumed event of the type. The members before it
    are stale; the event, if there is one, is returned with its number. -/
def pickEvent (type : EventType) :
    List ((List Char × ℕ) × Option (JsonText EventRecord)) → List StaleEventIndexObservation →
      List StaleEventIndexObservation × Option (ℕ × EventRecord)
  | [], stale => (stale, none)
  | ((member, field), none) :: rest, stale =>
    pickEvent type rest (stale ++ [⟨member, .missing field⟩])
  | ((member, field), some raw) :: rest, stale =>
    if raw.val.type ≠ type ∨ raw.val.consumedByOrdinal.isSome then
      pickEvent type rest (stale ++ [⟨member, .observed field raw⟩])
    else (stale, some (field, raw.val))

def eventIndexStaleScanLimit : ℕ := 256

def tooManyStaleMembers : WorkflowError :=
  .invalidState "Workflow event type index has too many stale members"

/-- `find_buffered_event`, having seen some stale members. Each page that it goes past
    has at least one of them, so that it looks at no more pages than the limit: this
    is the first argument. -/
def findBufferedEventFrom (cfg : Service) (req : StepRequest) (type : EventType) :
    ℕ → ℕ → ServiceM (Option (ℕ × EventRecord × Payload))
  | 0, _ => .fail tooManyStaleMembers
  | pages + 1, staleSeen => do
    let members : List (List Char) ←
      eval (.scanEventIndex req.runToken req.ordinal (eventTypeIndexPrefix type))
    if members.isEmpty then .ret none
    else if (eventCandidates members).isEmpty then do
      let seen := staleSeen + (malformedMembers members).length
      cleanupStaleEventIndexMembers cfg req (malformedMembers members)
      if eventIndexStaleScanLimit ≤ seen then .fail tooManyStaleMembers
      else findBufferedEventFrom cfg req type pages seen
    else do
      let raw ← eval (.readEvents ((eventCandidates members).map Prod.snd))
      match pickEvent type ((eventCandidates members).zip raw) (malformedMembers members) with
      | (stale, some (field, record)) => do
        let payload : Option Payload ← eval (.readPayload record.payloadRef)
        match payload with
        | none => .fail (.payloadMissing ("Workflow event payload " ++ refText record.payloadRef ++
            " is missing"))
        | some payload => do
          cleanupStaleEventIndexMembers cfg req stale
          .ret (some (field, record, payload))
      | (stale, none) => do
        let seen := staleSeen + stale.length
        cleanupStaleEventIndexMembers cfg req stale
        if eventIndexStaleScanLimit ≤ seen then .fail tooManyStaleMembers
        else findBufferedEventFrom cfg req type pages seen

/-- `find_buffered_event`. -/
def findBufferedEvent (cfg : Service) (req : StepRequest) (type : EventType) :
    ServiceM (Option (ℕ × EventRecord × Payload)) :=
  findBufferedEventFrom cfg req type eventIndexStaleScanLimit 0

/-! ## Waits -/

/-- `wait_event_type`. -/
def waitEventType (req : StepRequest) : Except WorkflowError EventType :=
  match req.config.eventType with
  | none => .error (.invalidRequest "waitForEvent eventType is required")
  | some type =>
    if type.isEmpty then .error (.invalidRequest "waitForEvent eventType must be non-empty")
    else .ok type

/-- The record of a completed wait. -/
def completedWaitRecord (req : StepRequest) (output : Payload) (now : ℕ) : StepRecord :=
  { req.record .waitForEvent .completed 1 with
    outputRef := if (inlineStepPayload output).isNone then some (.stepEvent req.ordinal) else none
    output := inlineStepPayload output
    completedAtMs := some now }

/-- The commit that completes a wait, and consumes its event if there is one. -/
def completedWaitCommit (cfg : Service) (req : StepRequest) (event : Option (ℕ × EventRecord))
    (output : Payload) (now : ℕ) : StepRecordCommit :=
  let record := completedWaitRecord req output now
  { record := cfg.stepRecordJson record
    summary := cfg.summaryBytes record
    stateStatus := .running
    dueAtMs := none
    payloadRef := record.outputRef
    payloadJson := some output
    eventRecord := event.map fun e =>
      (e.1, cfg.eventRecordJson { e.2 with consumedByOrdinal := some req.ordinal })
    eventIndexMember := event.map fun e => eventTypeIndexMember e.2.type e.2.id
    waitingEventIndexPrefix := none }

/-- `complete_wait_with_payload`. -/
def completeWaitWithPayload (cfg : Service) (req : StepRequest) (event : Option (ℕ × EventRecord))
    (output : Payload) : ServiceM StepAnswer := do
  let t ← now
  let json ← ofExcept (resultJson cfg output "wait output")
  commitStepRecord cfg req (completedWaitCommit cfg req event json t)
  .ret (.complete (some output.val))

/-- Complete a wait with the event that was found, or go on without one. -/
def completeOr (cfg : Service) (req : StepRequest)
    (found : Option (ℕ × EventRecord × Payload)) (otherwise : ServiceM StepAnswer) :
    ServiceM StepAnswer :=
  match found with
  | some (field, record, payload) => completeWaitWithPayload cfg req (some (field, record)) payload
  | none => otherwise

/-- The commit that registers a wait. -/
def waitingCommit (cfg : Service) (record : StepRecord) (dueAtMs : Option ℕ) (type : EventType) :
    StepRecordCommit where
  record := cfg.stepRecordJson record
  summary := cfg.summaryBytes record
  stateStatus := .waiting
  dueAtMs := dueAtMs
  payloadRef := none
  payloadJson := none
  eventRecord := none
  eventIndexMember := none
  waitingEventIndexPrefix := some (eventTypeIndexPrefix type)

/-- `write_waiting_record_and_recheck_event`. -/
def writeWaitingRecordAndRecheckEvent (cfg : Service) (req : StepRequest) (record : StepRecord)
    (dueAtMs : Option ℕ) (type : EventType) : ServiceM StepAnswer := do
  commitStepRecord cfg req (waitingCommit cfg record dueAtMs type)
  let found ← findBufferedEvent cfg req type
  completeOr cfg req found (.ret (.waiting none))

/-- Complete a wait whose time is up with `null`, or register it. -/
def expireOrRegister (cfg : Service) (req : StepRequest) (record : StepRecord)
    (type : EventType) (now : ℕ) : ServiceM StepAnswer :=
  if record.dueAtMs.any (· ≤ now) then completeWaitWithPayload cfg req none .null
  else writeWaitingRecordAndRecheckEvent cfg req record record.dueAtMs type

/-- `register_wait`. -/
def registerWait (cfg : Service) (req : StepRequest) : ServiceM StepAnswer := do
  ofExcept (validateStepRequest req)
  let type ← ofExcept (waitEventType req)
  let due ← ofExcept (requestDueAtMs req)
  let raw ← readStepRecordForClaim req
  let t ← now
  match raw with
  | none => do
    let found ← findBufferedEvent cfg req type
    completeOr cfg req found
      (expireOrRegister cfg req { req.record .waitForEvent .waiting 1 with dueAtMs := due } type t)
  | some raw => do
    ofExcept (verifyStepRecord req raw.val .waitForEvent)
    match raw.val.status with
    | .completed => do
      let v ← storedOutcome req raw.val.output raw.val.outputRef
        "Workflow completed wait step is missing output ref" "Workflow wait output"
      .ret (.complete (some v))
    | .waiting => do
      let found ← findBufferedEvent cfg req type
      completeOr cfg req found (expireOrRegister cfg req raw.val type t)
    | .failed => .fail (.invalidState "Workflow wait step is not waiting or completed")

end Wdl.Workflow.Api
