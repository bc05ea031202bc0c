import Wdl.Workflow.Scripts.Lease

/-!
# The scripts of steps

Every call that Runtime makes for a step is fenced: it carries the generation
and the run token of its run, and it is refused unless they are those of the
instance, the lease has not run out, and the instance is active (`claimFence`).
The commits then account for the bytes they replace and those they write, and are
refused when the instance would exceed its payload limit.
-/

namespace Wdl.Workflow

/-- The replies of the step scripts. -/
inductive StepCode
  | staleClaim | ok | payloadLimit | expiredClaim | inactiveInstance | corruptClaim
  deriving DecidableEq

/-- The fence of the step scripts: the state of the instance when the claim holds. -/
def claimFence (generation token now : ℕ) (i : Instance) : Except StepCode State :=
  match i.state with
  | none => .error .staleClaim
  | some s =>
    if s.generation ≠ generation ∨ s.runToken ≠ some token then .error .staleClaim
    else
      match s.runLeaseExpiresAtMs with
      | none => .error .corruptClaim
      | some lease =>
        if lease ≤ now then .error .expiredClaim
        else if s.status ≠ .running ∧ s.status ≠ .waiting then .error .inactiveInstance
        else .ok s

/-- `READ_STEP_RECORD_SCRIPT` on the steps hash. -/
def readStepRecord (generation token now ordinal : ℕ) (i : Instance) :
    Except StepCode (Option (JsonText StepRecord)) :=
  (claimFence generation token now i).map fun _ => i.steps.lookup ordinal

/-- `READ_STEP_RECORD_SCRIPT` on the payloads hash. -/
def readStepPayload (generation token now : ℕ) (ref : PayloadRef) (i : Instance) :
    Except StepCode (Option Payload) :=
  (claimFence generation token now i).map fun _ => i.payloads.lookup ref

/-! ## Accounting -/

/-- The bytes stored under a payload reference, none when there is no reference. -/
def oldPayloadBytes (i : Instance) (ref : Option PayloadRef) : ℕ :=
  ref.elim 0 (Hash.sizeAt JsonText.bytes i.payloads)

/-- The bytes of a payload that is to be stored under a reference. -/
def newPayloadBytes (ref : Option PayloadRef) (json : Option Payload) : ℕ :=
  ref.elim 0 fun _ => json.elim 0 JsonText.bytes

/-- `HSET` of a payload, when there is a reference and a text. -/
def writePayload (i : Instance) (ref : Option PayloadRef) (json : Option Payload) :
    Hash PayloadRef Payload :=
  match ref, json with
  | some r, some p => i.payloads.insert r p
  | _, _ => i.payloads

/-- The bytes of the event record that a commit replaces. -/
def oldEventBytes (i : Instance) (event : Option (ℕ × JsonText EventRecord)) : ℕ :=
  event.elim 0 fun e => Hash.sizeAt JsonText.bytes i.events e.1

/-- `HSET` of an event record, when there is one. -/
def writeEvent (i : Instance) (event : Option (ℕ × JsonText EventRecord)) :
    Hash ℕ (JsonText EventRecord) :=
  match event with
  | some (field, value) => i.events.insert field value
  | none => i.events

/-- The payload bytes of the instance once a step is written: the old payload,
    record and summary leave, and the new ones enter. -/
def nextPayloadBytes (i : Instance) (s : State) (ordinal : ℕ) (ref : Option PayloadRef)
    (json : Option Payload) (record : JsonText StepRecord) (summary : ℕ) : ℤ :=
  s.payloadBytes - oldPayloadBytes i ref - Hash.sizeAt JsonText.bytes i.steps ordinal
    - Hash.sizeAt id i.summaries ordinal + newPayloadBytes ref json + record.bytes + summary

/-- The keys once the payload, the record and the summary of a step are written. -/
def writeStep (i : Instance) (s : State) (ordinal : ℕ) (ref : Option PayloadRef)
    (json : Option Payload) (record : JsonText StepRecord) (summary : ℕ) (bytes : ℤ) : Instance :=
  { i with
    state := some { s with payloadBytes := bytes }
    payloads := writePayload i ref json
    steps := i.steps.insert ordinal record
    summaries := i.summaries.insert ordinal summary }

/-! ## The commits -/

/-- `COMMIT_STEP_SUCCESS_SCRIPT`. -/
def commitStepSuccess (cfg : Service) (generation token now ordinal : ℕ) (ref : Option PayloadRef)
    (json : Payload) (record : JsonText StepRecord) (summary : ℕ) (i : Instance) :
    StepCode × Instance :=
  match claimFence generation token now i with
  | .error code => (code, i)
  | .ok s =>
    let next := nextPayloadBytes i s ordinal ref (some json) record summary
    if cfg.payloadLimit < next then (.payloadLimit, i)
    else (.ok, writeStep i s ordinal ref (some json) record summary next)

/-- `COMMIT_STEP_ERROR_SCRIPT`. With a due time the instance waits for the retry. -/
def commitStepError (cfg : Service) (generation token now ordinal : ℕ) (ref : Option PayloadRef)
    (json : Payload) (record : JsonText StepRecord) (summary : ℕ) (dueAtMs : Option ℕ)
    (i : Instance) : StepCode × Instance :=
  match claimFence generation token now i with
  | .error code => (code, i)
  | .ok s =>
    let next := nextPayloadBytes i s ordinal ref (some json) record summary
    if cfg.payloadLimit < next then (.payloadLimit, i)
    else
      match dueAtMs with
      | none => (.ok, writeStep i s ordinal ref (some json) record summary next)
      | some due =>
        (.ok, { writeStep i { s with status := .waiting } ordinal ref (some json) record summary
            next with due := some due, ready := false })

/-- The arguments of `COMMIT_STEP_RECORD_SCRIPT`. -/
structure StepRecordCommit where
  record : JsonText StepRecord
  summary : ℕ
  stateStatus : Status
  dueAtMs : Option ℕ
  payloadRef : Option PayloadRef
  payloadJson : Option Payload
  eventRecord : Option (ℕ × JsonText EventRecord)
  eventIndexMember : Option (List Char)
  waitingEventIndexPrefix : Option (List Char)

/-- The payload bytes that a record commit leaves. -/
def recordPayloadBytes (i : Instance) (s : State) (ordinal : ℕ) (a : StepRecordCommit) : ℤ :=
  nextPayloadBytes i s ordinal a.payloadRef a.payloadJson a.record a.summary
    - oldEventBytes i a.eventRecord + a.eventRecord.elim 0 (fun e => e.2.bytes)

/-- The keys after a record commit. The token always leaves the ready set, and it
    leaves the due set when there is no due time. -/
def writeRecord (i : Instance) (s : State) (ordinal : ℕ) (a : StepRecordCommit) : Instance :=
  let s' := { s with
    status := a.stateStatus, waitingEventIndexPrefix := a.waitingEventIndexPrefix }
  { writeStep i s' ordinal a.payloadRef a.payloadJson a.record a.summary
      (recordPayloadBytes i s ordinal a) with
    due := a.dueAtMs
    ready := false
    events := writeEvent i a.eventRecord
    eventIndex := a.eventIndexMember.elim i.eventIndex i.eventIndex.erase }

/-- `COMMIT_STEP_RECORD_SCRIPT`. -/
def commitStepRecord (cfg : Service) (generation token now ordinal : ℕ) (a : StepRecordCommit)
    (i : Instance) : StepCode × Instance :=
  match claimFence generation token now i with
  | .error code => (code, i)
  | .ok s =>
    if cfg.payloadLimit < recordPayloadBytes i s ordinal a then (.payloadLimit, i)
    else (.ok, writeRecord i s ordinal a)

/-- `RESTORE_WAITING_DUE_SCRIPT`. -/
def restoreWaitingDue (generation token now dueAtMs : ℕ) (i : Instance) : StepCode × Instance :=
  match claimFence generation token now i with
  | .error code => (code, i)
  | .ok s =>
    if s.status ≠ .running then (.inactiveInstance, i)
    else
      (.ok, { i.setState { s with status := .waiting } with due := some dueAtMs, ready := false })

/-! ## The fence -/

variable {generation token now : ℕ} {i : Instance}

/-- The fence only passes on the current claim of an active instance. -/
theorem claimFence_ok {s : State} (h : claimFence generation token now i = .ok s) :
    i.state = some s ∧ s.runToken = some token ∧ (s.status = .running ∨ s.status = .waiting) := by
  unfold claimFence at h
  split at h
  case h_1 => cases h
  case h_2 hs =>
    split at h
    case isTrue => cases h
    case isFalse hfence =>
      split at h
      case h_1 => cases h
      case h_2 =>
        split_ifs at h with _ hst
        cases h
        push Not at hfence hst
        exact ⟨hs, hfence.2, or_iff_not_imp_left.2 hst⟩

theorem claimFence_active {s : State} (h : claimFence generation token now i = .ok s) :
    i.state = some s ∧ s.status.terminal = false := by
  obtain ⟨hs, -, hst⟩ := claimFence_ok h
  refine ⟨hs, ?_⟩
  rcases hst with hst | hst <;> rw [hst] <;> rfl

theorem claimFence_error {code : StepCode} (h : claimFence generation token now i = .error code) :
    code ≠ .ok := by
  unfold claimFence at h
  split at h
  · cases h; decide
  · split at h
    · cases h; decide
    · split at h
      · cases h; decide
      · split at h
        · cases h; decide
        · split at h
          · cases h; decide
          · cases h

end Wdl.Workflow
