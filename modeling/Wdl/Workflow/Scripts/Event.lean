import Wdl.Workflow.Scripts.Step

/-!
# The scripts of events

`sendEvent` numbers an event, stores its payload and its record, enters it in the
index by type and makes the instance ready. `cleanupStaleEventIndex` drops the
members of the index that a lookup found to be stale, as long as what it observed
still holds.
-/

namespace Wdl.Workflow

/-- What `SEND_EVENT_SCRIPT` replies. -/
inductive SendReply
  | notFound | terminal | stale | payloadLimit | ok
  deriving DecidableEq

/-- The record of the next event of an instance. -/
def nextEventRecord (s : State) (type : EventType) (now : ℕ) : EventRecord where
  id := s.eventSeq + 1
  type := type
  payloadRef := .event (s.eventSeq + 1)
  createdAtMs := now
  consumedByOrdinal := none

/-- The payload bytes once an event is stored. -/
def eventPayloadBytes (cfg : Service) (s : State) (payload : Payload) (type : EventType)
    (now : ℕ) : ℤ :=
  s.payloadBytes + payload.bytes + (cfg.eventRecordJson (nextEventRecord s type now)).bytes

/-- The keys once an event is stored. A paused instance is not made ready. -/
def storeEvent (cfg : Service) (i : Instance) (s : State) (payload : Payload) (type : EventType)
    (pre : List Char) (now : ℕ) : Instance :=
  { i with
    state := some { s with
      payloadBytes := eventPayloadBytes cfg s payload type now, eventSeq := s.eventSeq + 1 }
    payloads := i.payloads.insert (.event (s.eventSeq + 1)) payload
    events := i.events.insert (s.eventSeq + 1) (cfg.eventRecordJson (nextEventRecord s type now))
    eventIndex := insert (indexMember pre (s.eventSeq + 1)) i.eventIndex
    ready := if s.status = .paused then i.ready else true
    active := if s.status = .paused then i.active else true }

/-- `SEND_EVENT_SCRIPT`. -/
def sendEvent (cfg : Service) (payload : Payload) (type : EventType) (pre : List Char)
    (now generation createdAtMs : ℕ) (i : Instance) : SendReply × Instance :=
  match i.state with
  | none => (.notFound, i)
  | some s =>
    if s.status.terminal then (.terminal, i)
    else if s.generation ≠ generation ∨ s.createdAtMs ≠ createdAtMs then (.stale, i)
    else if cfg.payloadLimit < eventPayloadBytes cfg s payload type now then (.payloadLimit, i)
    else (.ok, storeEvent cfg i s payload type pre now)

/-- What a lookup saw of the event record of an index member that it skipped. -/
inductive StaleEventRecordObservation
  | malformedMember
  | missing (field : ℕ)
  | observed (field : ℕ) (raw : JsonText EventRecord)
  deriving DecidableEq

/-- A member of the index that a lookup skipped, and why. -/
structure StaleEventIndexObservation where
  member : List Char
  record : StaleEventRecordObservation
  deriving DecidableEq

/-- Whether what was observed of a member still holds. -/
def StaleEventIndexObservation.holds (o : StaleEventIndexObservation) (i : Instance) : Bool :=
  match o.record with
  | .malformedMember => true
  | .missing field => (i.events.lookup field).isNone
  | .observed field raw => i.events.lookup field == some raw

/-- The index without the members whose observation still holds. -/
def dropStale (i : Instance) (observations : List StaleEventIndexObservation) :
    Finset (List Char) :=
  observations.foldl (fun z o => if o.holds i then z.erase o.member else z) i.eventIndex

/-- `CLEANUP_STALE_EVENT_INDEX_SCRIPT`. -/
def cleanupStaleEventIndex (generation createdAtMs token now : ℕ)
    (observations : List StaleEventIndexObservation) (i : Instance) : StepCode × Instance :=
  if i.state.any fun s => s.createdAtMs ≠ createdAtMs then (.staleClaim, i)
  else
    match claimFence generation token now i with
    | .error code => (code, i)
    | .ok _ => (.ok, { i with eventIndex := dropStale i observations })

end Wdl.Workflow
