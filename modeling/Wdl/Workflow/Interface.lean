import Wdl.Base.RelyGuarantee
import Wdl.Workflow.Errors
import Wdl.Workflow.Scripts.Lifecycle

/-!
# What the service calls

A process of the service reads the clock, runs a script or a command on the keys
of the instance, asks the control database about the worker, or calls Runtime.
The answers of the last two are not under the control of the service, and neither
is the clock: any of them may be anything, at any time.

A script is one atomic action on the keys. Its reply may be lost, and then the
caller sees an error whether or not the script was run.

* `Script` are the scripts and commands, with `Script.run` and `Script.exec` their meaning.
* `Db` is the store: the keys, the time, and a history of what has happened.
* `Db.call` is the meaning of a call.
-/

namespace Wdl.Workflow

/-! ## Scripts and commands -/

/-- What `RESTART_SCRIPT` replies. -/
inductive RestartReply
  | leaseExpired | stale | restarted
  deriving DecidableEq

/-- The reply of a restart whose marker has not expired, by whether it was done. -/
def RestartReply.ofBool (done : Bool) : RestartReply := if done then .restarted else .stale

/-- The scripts and commands on the keys of an instance, with their arguments. -/
inductive Script
  /-- `HGETALL` of the state. -/
  | readState
  /-- `READ_READY_STATE_AND_PARAMS_SCRIPT`. -/
  | readReadyStateAndParams
  /-- `HGET` of a payload. -/
  | readPayload (ref : PayloadRef)
  | readStepRecord (generation token now ordinal : ℕ)
  | readStepPayload (generation token now : ℕ) (ref : PayloadRef)
  /-- `ZRANGEBYLEX` of the index, by the wait `ordinal` of the run `token`. -/
  | scanEventIndex (token ordinal : ℕ) (pre : List Char)
  /-- `HMGET` of event records. -/
  | readEvents (ids : List ℕ)
  /-- `ZRANGEBYSCORE` of the due set: whether the token is due. -/
  | scanDue (now : ℕ)
  /-- `ZRANGEBYSCORE` of the retention set: the score of the token if it is due. -/
  | scanRetention (now : ℕ)
  | claimRun (expectedStatus : Status) (generation token expiresAt now createdAtMs : ℕ)
  | releaseRun (generation token : ℕ) (status : Status)
  | clearSuspendedRun (generation token : ℕ)
  | requeueExpiredRun (now generation createdAtMs : ℕ)
  | moveDueToken (now : ℕ)
  | removeReadyTokenIfTerminal (generation : ℕ)
  | removeReadyTokenIfStateMissing
  | pruneReadyShard
  | commitStepSuccess (generation token now ordinal : ℕ) (ref : Option PayloadRef)
      (json : Payload) (record : JsonText StepRecord) (summary : ℕ)
  | commitStepError (generation token now ordinal : ℕ) (ref : Option PayloadRef)
      (json : Payload) (record : JsonText StepRecord) (summary : ℕ) (dueAtMs : Option ℕ)
  | commitStepRecord (generation token now ordinal : ℕ) (a : StepRecordCommit)
  | restoreWaitingDue (generation token now dueAtMs : ℕ)
  | sendEvent (payload : Payload) (type : EventType) (pre : List Char)
      (now generation createdAtMs : ℕ)
  | cleanupStaleEventIndex (generation createdAtMs token now : ℕ)
      (observations : List StaleEventIndexObservation)
  | createInstance (a : CreateArgs)
  | finalizeCreateInstance (token now : ℕ)
  | cleanupPendingCreate (token frozenVersion : ℕ)
  | pause (generation nextGeneration createdAtMs : ℕ)
  | resume (generation nextGeneration createdAtMs : ℕ)
  | terminate (generation nextGeneration createdAtMs retentionExpiresAt frozenVersion : ℕ)
  | restart (marker generation nextGeneration createdAtMs oldVersion newVersion now : ℕ)
      (params : Payload)
  | commitRuntimeTerminal (generation token : ℕ) (outcome : RunOutcome) (result : Payload)
      (now retentionExpiresAt overflowRetentionExpiresAt : ℕ)
  | removeRetentionToken (score : ℕ) (seen : Option (Status × ℕ × ℕ))
  | cleanupRetention (generation createdAtMs now frozenVersion : ℕ)
  /-- `ZADD` of the pending restart of a version. -/
  | createPendingRestart (marker version : ℕ)
  /-- `ZREM` of the pending restart of a version. -/
  | removePendingRestart (marker version : ℕ)

namespace Script

/-- What a script replies. -/
abbrev Reply : Script → Type
  | readState => Option State
  | readReadyStateAndParams => Option State × Option Payload
  | readPayload _ => Option Payload
  | readStepRecord .. => Except StepCode (Option (JsonText StepRecord))
  | readStepPayload .. => Except StepCode (Option Payload)
  | scanEventIndex .. => List (List Char)
  | readEvents _ => List (Option (JsonText EventRecord))
  | scanRetention _ => Option ℕ
  | releaseRun .. => ReleaseReply
  | commitStepSuccess .. | commitStepError .. | commitStepRecord .. | restoreWaitingDue ..
  | cleanupStaleEventIndex .. => StepCode
  | sendEvent .. => SendReply
  | restart .. => RestartReply
  | commitRuntimeTerminal .. => TerminalReply
  | createPendingRestart .. | removePendingRestart .. => Unit
  | _ => Bool

/-- The members that one `ZRANGEBYLEX` of the index returns at most. -/
def eventIndexScanBatchSize : ℕ := 64

/-- The params of an instance that is to be dispatched. -/
def readyParams (i : Instance) : Option Payload :=
  match i.state with
  | some s =>
    if s.status = .queued ∨ s.status = .waiting then i.payloads.lookup .params else none
  | none => none

/-- The reply of a script and the keys after it, as long as its marker has not expired if
    it is a restart. -/
def run (cfg : Service) : (c : Script) → Instance → c.Reply × Instance
  | readState, i => (i.state, i)
  | readReadyStateAndParams, i => ((i.state, readyParams i), i)
  | readPayload ref, i => (i.payloads.lookup ref, i)
  | readStepRecord g t n o, i => (Workflow.readStepRecord g t n o i, i)
  | readStepPayload g t n r, i => (Workflow.readStepPayload g t n r i, i)
  | scanEventIndex _ _ pre, i => (indexRange i.eventIndex pre eventIndexScanBatchSize, i)
  | readEvents ids, i => (ids.map i.events.lookup, i)
  | scanDue n, i => (i.due.any (· ≤ n), i)
  | scanRetention n, i => (i.retention.filter (· ≤ n), i)
  | claimRun st g t e n c, i => Workflow.claimRun st g t e n c i
  | releaseRun g t st, i => Workflow.releaseRun g t st i
  | clearSuspendedRun g t, i => Workflow.clearSuspendedRun g t i
  | requeueExpiredRun n g c, i => Workflow.requeueExpiredRun n g c i
  | moveDueToken n, i => Workflow.moveDueToken n i
  | removeReadyTokenIfTerminal g, i => Workflow.removeReadyTokenIfTerminal g i
  | removeReadyTokenIfStateMissing, i => Workflow.removeReadyTokenIfStateMissing i
  | pruneReadyShard, i => Workflow.pruneReadyShard i
  | commitStepSuccess g t n o ref json r sum, i =>
    Workflow.commitStepSuccess cfg g t n o ref json r sum i
  | commitStepError g t n o ref json r sum due, i =>
    Workflow.commitStepError cfg g t n o ref json r sum due i
  | commitStepRecord g t n o a, i => Workflow.commitStepRecord cfg g t n o a i
  | restoreWaitingDue g t n due, i => Workflow.restoreWaitingDue g t n due i
  | sendEvent p ty pre n g c, i => Workflow.sendEvent cfg p ty pre n g c i
  | cleanupStaleEventIndex g c t n obs, i => Workflow.cleanupStaleEventIndex g c t n obs i
  | createInstance a, i => Workflow.createInstance a i
  | finalizeCreateInstance t n, i => Workflow.finalizeCreateInstance t n i
  | cleanupPendingCreate t v, i => Workflow.cleanupPendingCreate t v i
  | pause g g' c, i => Workflow.pause g g' c i
  | resume g g' c, i => Workflow.resume g g' c i
  | terminate g g' c e v, i => Workflow.terminate g g' c e v i
  | restart _ g g' c v v' n p, i =>
    (.ofBool (Workflow.restart g g' c v v' n p i).1, (Workflow.restart g g' c v v' n p i).2)
  | commitRuntimeTerminal g t out res n e e', i =>
    Workflow.commitRuntimeTerminal cfg g t out res n e e' i
  | removeRetentionToken sc seen, i => Workflow.removeRetentionToken sc seen i
  | cleanupRetention g c n v, i => Workflow.cleanupRetention g c n v i
  | createPendingRestart .., i => ((), i)
  | removePendingRestart .., i => ((), i)

/-- The script is a restart that found its marker expired. -/
def markerExpired : (c : Script) → c.Reply → Prop
  | restart .., x => x = RestartReply.leaseExpired
  | _, _ => False

/-- What a script may reply, and the keys after it. The markers of restarts are kept
    elsewhere: whether a marker has expired is not known from the keys of the instance,
    and so a restart may find it expired at any time. -/
def exec (cfg : Service) (c : Script) (i : Instance) (x : c.Reply) (i' : Instance) : Prop :=
  (x, i') = c.run cfg i ∨ (c.markerExpired x ∧ i' = i)

end Script

/-! ## Calls -/

/-- What the service asks the control database about the worker. -/
inductive ControlQuery
  /-- The active version of the worker, if it exports the workflow. -/
  | activeVersion
  /-- That the delete lock of the worker does not exist. -/
  | workerNotDeleting
  /-- That the active version is still this one. -/
  | activeWorkflowCurrent (version : ℕ)
  /-- That the definition of the workflow is the one of the request. -/
  | workflowDef
  deriving DecidableEq

/-- What the control database answers. -/
abbrev ControlQuery.Reply : ControlQuery → Type
  | activeVersion => ℕ
  | _ => Unit

/-- What Runtime answers to a dispatch. -/
inductive RuntimeAnswer
  /-- The call failed, or its answer could not be read. -/
  | error (e : WorkflowError)
  /-- The answer has no outcome, or not one that is known. -/
  | malformed
  | completed (output : Payload)
  | failed (error : Payload)
  | suspended
  deriving DecidableEq

/-- A call of a process of the service. -/
inductive Call
  | now
  | redis (c : Script)
  | control (q : ControlQuery)
  | dispatchRuntime

/-- The interface that the processes of the service are written against. -/
def api : Interface where
  Call := Call
  Ans
    | .now => ℕ
    | .redis c => Option c.Reply
    | .control q => Except WorkflowError q.Reply
    | .dispatchRuntime => RuntimeAnswer

/-- A program of the service. -/
abbrev ServiceM := Prog api WorkflowError

namespace ServiceM

/-- Read the clock of the machine. -/
def now : ServiceM ℕ := Prog.perform (I := api) .now

/-- Run a script, and fail if there is no reply. -/
def eval (c : Script) : ServiceM c.Reply :=
  (Prog.perform (I := api) (.redis c)).bind fun
    | some x => .ret x
    | none => .fail .redis

/-- Ask the control database, and fail with its error. -/
def askControl (q : ControlQuery) : ServiceM q.Reply :=
  (Prog.perform (I := api) (.control q)).bind fun
    | .ok x => .ret x
    | .error e => .fail e

/-- Call Runtime. -/
def dispatchRuntime : ServiceM RuntimeAnswer := Prog.perform (I := api) .dispatchRuntime

/-- Go on with a value, or fail with an error. -/
def ofExcept {α : Type} : Except WorkflowError α → ServiceM α
  | .ok a => .ret a
  | .error e => .fail e

end ServiceM

end Wdl.Workflow
