import Wdl.Base.Hash

/-!
# The keys of a workflow instance

Everything the workflows service keeps about one instance lives in database 2:
the state hash, the payloads, the step records and their summaries, the events
with their index by type, and the memberships of the instance's token in the
shared sets (the ready set and the due set of its shard, the retention set, and
the referrers by worker, by version and by workflow).

Values that are stored as JSON texts are known by what they parse to and by
their length in bytes (`JsonText`), which is all the service looks at: it never
inspects the text of a payload, but it accounts for its length.

`Service` holds what the deployment fixes: the run lease, the payload limit,
and the lengths of the JSON texts that the service writes.
-/

namespace Wdl.Workflow

/-- A JSON text: what it parses to, and its length. No JSON text is empty. -/
structure JsonText (α : Type) where
  /-- What the text parses to. -/
  val : α
  /-- The length of the text, in bytes. -/
  bytes : ℕ
  bytes_pos : 0 < bytes
  deriving DecidableEq

/-- A payload of the tenant. Values are opaque, `0` being `null`. -/
abbrev Payload := JsonText ℕ

namespace Payload

/-- The payload `null`. -/
def null : Payload := ⟨0, 4, by decide⟩

/-- Whether a payload is `null`. -/
def isNull (p : Payload) : Bool := p.val == 0

end Payload

/-! ## The state hash -/

/-- The status of an instance. -/
inductive Status
  | pendingCreate | queued | running | waiting | paused | completed | failed | terminated
  deriving DecidableEq, Repr

/-- The statuses that an instance only leaves by a restart. -/
def Status.terminal : Status → Bool
  | .completed | .failed | .terminated => true
  | _ => false

/-- The state hash of an instance. -/
structure State where
  status : Status
  generation : ℕ
  createdAtMs : ℕ
  frozenVersion : ℕ
  payloadBytes : ℤ
  eventSeq : ℕ
  successRetentionMs : ℕ
  errorRetentionMs : ℕ
  runToken : Option ℕ
  runLeaseExpiresAtMs : Option ℕ
  waitingEventIndexPrefix : Option (List Char)
  retentionExpiresAtMs : Option ℕ
  pendingCreateToken : Option ℕ
  pendingExpiresAtMs : Option ℕ
  deriving DecidableEq

/-- `HDEL` of the run token and its lease. -/
def State.dropRun (s : State) : State := { s with runToken := none, runLeaseExpiresAtMs := none }

/-! ## Payload references -/

/-- The fields of the payloads hash. -/
inductive PayloadRef
  | params
  | output
  | error
  | stepOutput (ordinal : ℕ)
  | stepError (ordinal : ℕ)
  | stepEvent (ordinal : ℕ)
  | event (id : ℕ)
  deriving DecidableEq

/-! ## Steps -/

/-- The kind of a step. -/
inductive StepKind
  | doStep | sleep | sleepUntil | waitForEvent
  deriving DecidableEq, Repr

/-- The status of a step record. -/
inductive StepStatus
  | completed | waiting | failed
  deriving DecidableEq, Repr

/-- A field of a JSON object, as far as it is read as a number. -/
inductive NumberField
  | absent
  | integer (n : ℤ)
  | other
  deriving DecidableEq, Repr

/-- The retry settings of a step, as they are sent. -/
structure RetrySettings where
  limit : NumberField
  delayMs : NumberField
  delay : NumberField
  /-- The backoff, absent when it is not a string. -/
  backoff : Option String
  deriving DecidableEq, Repr

/-- The bytes of an event type. -/
abbrev EventType := List UInt8

/-- A step configuration: which canonical text it is and its length, and what the
    service reads from it. Retry settings that are not an object are `some none`. -/
structure StepConfig where
  text : ℕ
  bytes : ℕ
  retries : Option (Option RetrySettings)
  type : Option StepKind
  eventType : Option EventType
  deriving DecidableEq

/-- The record of a step. -/
structure StepRecord where
  ordinal : ℕ
  stepName : String
  nameCount : ℕ
  dependencies : List ℕ
  kind : StepKind
  config : StepConfig
  status : StepStatus
  attempt : ℕ
  outputRef : Option PayloadRef
  errorRef : Option PayloadRef
  output : Option Payload
  error : Option Payload
  completedAtMs : Option ℕ
  failedAtMs : Option ℕ
  dueAtMs : Option ℕ
  deriving DecidableEq

/-! ## Events -/

/-- The record of an event. -/
structure EventRecord where
  id : ℕ
  type : EventType
  payloadRef : PayloadRef
  createdAtMs : ℕ
  consumedByOrdinal : Option ℕ
  deriving DecidableEq

/-! ## The instance -/

/-- The keys of one instance, and where its token and its referrer stand in the
    shared keys. -/
structure Instance where
  /-- The state hash, absent when the key does not exist. -/
  state : Option State
  payloads : Hash PayloadRef Payload
  steps : Hash ℕ (JsonText StepRecord)
  /-- The step summaries, of which only the lengths matter here. -/
  summaries : Hash ℕ ℕ
  events : Hash ℕ (JsonText EventRecord)
  /-- The members of the index of events by type. -/
  eventIndex : Finset (List Char)
  /-- The token is in the ready set of its shard. -/
  ready : Bool
  /-- Some other token is in the ready set of the shard. -/
  othersReady : Bool
  /-- The shard is in `wf:ready:active`. -/
  active : Bool
  /-- The score of the token in the due set of its shard. -/
  due : Option ℕ
  /-- The score of the token in `wf:retention`. -/
  retention : Option ℕ
  /-- The referrer is in the set of its worker. -/
  byWorker : Bool
  /-- The versions in whose set the referrer is. -/
  byVersion : Finset ℕ
  /-- The score of the instance in the index of its workflow. -/
  byWorkflow : Option ℕ

namespace Instance

/-- An instance none of whose keys exist. -/
def absent : Instance where
  state := none
  payloads := ∅
  steps := ∅
  summaries := ∅
  events := ∅
  eventIndex := ∅
  ready := false
  othersReady := false
  active := false
  due := none
  retention := none
  byWorker := false
  byVersion := ∅
  byWorkflow := none

/-- `DEL` of the seven keys of an instance. -/
def deleteKeys (i : Instance) : Instance :=
  { i with state := none, payloads := ∅, steps := ∅, summaries := ∅, events := ∅, eventIndex := ∅ }

/-- The contents of the keys that `deleteKeys` deletes. -/
def keys (i : Instance) : Option State × Hash PayloadRef Payload × Hash ℕ (JsonText StepRecord) ×
    Hash ℕ ℕ × Hash ℕ (JsonText EventRecord) × Finset (List Char) :=
  (i.state, i.payloads, i.steps, i.summaries, i.events, i.eventIndex)

/-- `SADD` of the token to the ready set, and of its shard to the active ones. -/
def addReady (i : Instance) : Instance := { i with ready := true, active := true }

/-- `HSET` of fields of the state hash. -/
def setState (i : Instance) (s : State) : Instance := { i with state := some s }

end Instance

/-! ## The service -/

/-- What a deployment of the service fixes. -/
structure Service where
  /-- How long a run claim is held. -/
  runLeaseMs : ℕ
  /-- The limit on the bytes stored for one instance. -/
  payloadLimit : ℕ
  /-- A sequence number of events fits the twenty digits of the index. -/
  payloadLimit_lt : payloadLimit < 10 ^ 20
  /-- The limits on the bytes of params, of one result, and of one event. -/
  paramsLimit : ℕ
  /-- The params of an instance never exceed its payload limit alone. -/
  paramsLimit_le : paramsLimit ≤ payloadLimit
  resultLimit : ℕ
  eventLimit : ℕ
  /-- The text of the error of a result that is too large, by its message. -/
  payloadTooLargeError : String → Payload
  /-- The length of the text of a step record. -/
  recordBytes : StepRecord → ℕ
  recordBytes_pos : ∀ r, 0 < recordBytes r
  /-- The length of the text of the summary of a step record. -/
  summaryBytes : StepRecord → ℕ
  /-- The length of the text of an event record. -/
  eventBytes : EventRecord → ℕ
  eventBytes_pos : ∀ r, 0 < eventBytes r

namespace Service

variable (cfg : Service)

/-- The text of a step record. -/
def stepRecordJson (r : StepRecord) : JsonText StepRecord :=
  ⟨r, cfg.recordBytes r, cfg.recordBytes_pos r⟩

/-- The text of an event record. -/
def eventRecordJson (r : EventRecord) : JsonText EventRecord :=
  ⟨r, cfg.eventBytes r, cfg.eventBytes_pos r⟩

/-- A deployment with the limits of the source, whose texts all have one length. -/
def standard : Service where
  runLeaseMs := 70000
  payloadLimit := 16 * 1024 * 1024
  payloadLimit_lt := by decide
  paramsLimit := 1024 * 1024
  paramsLimit_le := by decide
  resultLimit := 1024 * 1024
  eventLimit := 256 * 1024
  payloadTooLargeError := fun _ => ⟨1, 64, by decide⟩
  recordBytes := fun _ => 256
  recordBytes_pos := fun _ => by decide
  summaryBytes := fun _ => 64
  eventBytes := fun _ => 128
  eventBytes_pos := fun _ => by decide

end Service

end Wdl.Workflow
