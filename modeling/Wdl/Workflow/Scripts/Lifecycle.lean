import Wdl.Workflow.Scripts.Event

/-!
# The scripts of the lifecycle of an instance

An instance is reserved by `createInstance` and published by
`finalizeCreateInstance`; a reservation that is not published is removed by
`cleanupPendingCreate`. It ends by `commitRuntimeTerminal` or `terminate`, may be
paused and resumed, and is started over by `restart`. The retention sweep deletes
it with `cleanupRetention` once its retention has passed, and drops retention
tokens that point to nothing with `removeRetentionToken`.
-/

namespace Wdl.Workflow

/-! ## Creation -/

/-- The arguments of `CREATE_INSTANCE_SCRIPT`. -/
structure CreateArgs where
  frozenVersion : ℕ
  now : ℕ
  successRetentionMs : ℕ
  errorRetentionMs : ℕ
  params : Payload
  pendingExpiresAt : ℕ
  pendingToken : ℕ

/-- The state of a reserved instance. -/
def CreateArgs.state (a : CreateArgs) : State where
  status := .pendingCreate
  generation := 1
  createdAtMs := a.now
  frozenVersion := a.frozenVersion
  payloadBytes := a.params.bytes
  eventSeq := 0
  successRetentionMs := a.successRetentionMs
  errorRetentionMs := a.errorRetentionMs
  runToken := none
  runLeaseExpiresAtMs := none
  waitingEventIndexPrefix := none
  retentionExpiresAtMs := none
  pendingCreateToken := some a.pendingToken
  pendingExpiresAtMs := some a.pendingExpiresAt

/-- `CREATE_INSTANCE_SCRIPT`. -/
def createInstance (a : CreateArgs) (i : Instance) : Bool × Instance :=
  match i.state with
  | some _ => (false, i)
  | none => (true, { i with
      state := some a.state
      payloads := i.payloads.insert .params a.params
      byWorker := true
      byVersion := insert a.frozenVersion i.byVersion })

/-- The instance is reserved under a pending token. -/
def pendingUnder (i : Instance) (token : ℕ) : Option State :=
  i.state.filter fun s =>
    s.generation = 1 ∧ s.status = .pendingCreate ∧ s.pendingCreateToken = some token

/-- `FINALIZE_CREATE_INSTANCE_SCRIPT`. -/
def finalizeCreateInstance (token now : ℕ) (i : Instance) : Bool × Instance :=
  match pendingUnder i token with
  | none => (false, i)
  | some s => (true, { (i.setState { s with
      status := .queued, pendingCreateToken := none, pendingExpiresAtMs := none }).addReady with
        byWorkflow := some now })

/-- `CLEANUP_PENDING_CREATE_SCRIPT`. -/
def cleanupPendingCreate (token frozenVersion : ℕ) (i : Instance) : Bool × Instance :=
  match pendingUnder i token with
  | none => (false, i)
  | some _ => (true, { i.deleteKeys with
      byWorker := false, byVersion := i.byVersion.erase frozenVersion })

/-! ## Transitions -/

/-- The fence of the transitions: the state of the incarnation they observed. -/
def incarnation (generation createdAtMs : ℕ) (i : Instance) : Option State :=
  i.state.filter fun s => s.generation = generation ∧ s.createdAtMs = createdAtMs

/-- `HDEL` of the run token, its lease, and the event prefix. -/
def State.dropClaim (s : State) : State := { s.dropRun with waitingEventIndexPrefix := none }

/-- `PAUSE_RESUME_SCRIPT` with the mode `pause`. -/
def pause (generation nextGeneration createdAtMs : ℕ) (i : Instance) : Bool × Instance :=
  match incarnation generation createdAtMs i with
  | none => (false, i)
  | some s =>
    if s.status.terminal ∨ s.status = .paused then (false, i)
    else (true, { i.setState { s.dropClaim with
        status := .paused, generation := nextGeneration } with ready := false, due := none })

/-- `PAUSE_RESUME_SCRIPT` with the mode `resume`. -/
def resume (generation nextGeneration createdAtMs : ℕ) (i : Instance) : Bool × Instance :=
  match incarnation generation createdAtMs i with
  | none => (false, i)
  | some s =>
    if s.status ≠ .paused then (false, i)
    else (true, (i.setState { s.dropClaim with
        status := .queued, generation := nextGeneration }).addReady)

/-- `TERMINATE_SCRIPT`. -/
def terminate (generation nextGeneration createdAtMs retentionExpiresAt frozenVersion : ℕ)
    (i : Instance) : Bool × Instance :=
  match incarnation generation createdAtMs i with
  | none => (false, i)
  | some s =>
    if s.status.terminal then (false, i)
    else (true, { i.setState { s.dropClaim with
        status := .terminated, generation := nextGeneration
        retentionExpiresAtMs := some retentionExpiresAt } with
      ready := false
      due := none
      byVersion := i.byVersion.erase frozenVersion
      retention := some retentionExpiresAt })

/-- The keys of an instance that has been started over. -/
def restarted (i : Instance) (s : State) (nextGeneration oldVersion newVersion now : ℕ)
    (params : Payload) : Instance :=
  { i.addReady with
    state := some { s.dropClaim with
      status := .queued, generation := nextGeneration, frozenVersion := newVersion
      eventSeq := 0, payloadBytes := params.bytes, retentionExpiresAtMs := none }
    payloads := (∅ : Hash PayloadRef Payload).insert .params params
    steps := ∅
    summaries := ∅
    events := ∅
    eventIndex := ∅
    due := none
    byVersion := insert newVersion (i.byVersion.erase oldVersion)
    byWorker := true
    retention := none
    byWorkflow := some now }

/-- `RESTART_SCRIPT`, once its marker has been found to be unexpired. Unlike the
    other transitions it accepts every status. -/
def restart (generation nextGeneration createdAtMs oldVersion newVersion now : ℕ)
    (params : Payload) (i : Instance) : Bool × Instance :=
  match incarnation generation createdAtMs i with
  | none => (false, i)
  | some s => (true, restarted i s nextGeneration oldVersion newVersion now params)

/-! ## The end of a run -/

/-- The outcome of a run that ends the instance. -/
inductive RunOutcome
  | completed | failed
  deriving DecidableEq

/-- The status that an outcome leads to. -/
def RunOutcome.status : RunOutcome → Status
  | .completed => .completed
  | .failed => .failed

/-- The field that the result of an outcome is stored under. -/
def RunOutcome.ref : RunOutcome → PayloadRef
  | .completed => .output
  | .failed => .error

/-- What `COMMIT_RUNTIME_TERMINAL_SCRIPT` replies. -/
inductive TerminalReply
  | fenced | committed | overflow | requeued
  deriving DecidableEq

/-- The instance in a terminal status, out of the ready and due sets and in the
    retention set. -/
def endInstance (i : Instance) (s : State) (status : Status) (retentionExpiresAt : ℕ) : Instance :=
  { i.setState { s.dropClaim with
      status := status, retentionExpiresAtMs := some retentionExpiresAt } with
    retention := some retentionExpiresAt, ready := false, due := none }

/-- The keys after a terminal commit that is not over the limit. -/
def storeResult (i : Instance) (s : State) (outcome : RunOutcome) (result : Payload)
    (retentionExpiresAt : ℕ) : Instance :=
  { endInstance i { s with payloadBytes := s.payloadBytes + result.bytes } outcome.status
      retentionExpiresAt with
    payloads := i.payloads.insert outcome.ref result }

/-- `COMMIT_RUNTIME_TERMINAL_SCRIPT`. A waiting instance may only fail. -/
def commitRuntimeTerminal (cfg : Service) (generation token : ℕ) (outcome : RunOutcome)
    (result : Payload) (now retentionExpiresAt overflowRetentionExpiresAt : ℕ) (i : Instance) :
    TerminalReply × Instance :=
  match i.state with
  | none => (.fenced, i)
  | some s =>
    if s.generation ≠ generation ∨ s.runToken ≠ some token then (.fenced, i)
    else
      let waitingFailed := outcome = .failed ∧ s.status = .waiting
      if s.status ≠ .running ∧ ¬ waitingFailed then (.fenced, i)
      else
        match s.runLeaseExpiresAtMs with
        | none => (.fenced, i)
        | some lease =>
          if lease ≤ now then
            if waitingFailed then (.requeued, i.addReady) else (.fenced, i)
          else if cfg.payloadLimit < s.payloadBytes + result.bytes then
            (.overflow, endInstance i s .failed overflowRetentionExpiresAt)
          else (.committed, storeResult i s outcome result retentionExpiresAt)

/-! ## Retention -/

/-- What the sweep saw of a state: its status, generation and creation time. -/
def observed (i : Instance) : Option (Status × ℕ × ℕ) :=
  i.state.map fun s => (s.status, s.generation, s.createdAtMs)

/-- `REMOVE_RETENTION_TOKEN_SCRIPT`, for a token that names an instance. -/
def removeRetentionToken (score : ℕ) (seen : Option (Status × ℕ × ℕ)) (i : Instance) :
    Bool × Instance :=
  if i.retention ≠ some score then (false, i)
  else if observed i ≠ seen then (false, i)
  else (true, { i with retention := none })

/-- `CLEANUP_RETENTION_SCRIPT`. -/
def cleanupRetention (generation createdAtMs now frozenVersion : ℕ) (i : Instance) :
    Bool × Instance :=
  match incarnation generation createdAtMs i with
  | none => (false, i)
  | some s =>
    if s.status.terminal = false then (false, i)
    else
      match s.retentionExpiresAtMs with
      | none => (false, i)
      | some expiresAt =>
        if now < expiresAt then (false, i)
        else (true, { i.deleteKeys with
          byWorker := false
          byVersion := i.byVersion.erase frozenVersion
          retention := none
          byWorkflow := none })

/-! ## The fences -/

variable {i : Instance} {s : State}

theorem pendingUnder_some {token : ℕ} (h : pendingUnder i token = some s) :
    i.state = some s ∧ s.generation = 1 ∧ s.status = .pendingCreate ∧
      s.pendingCreateToken = some token := by
  obtain ⟨hs, hp⟩ := Option.filter_eq_some_iff.1 h
  exact ⟨hs, by simpa using hp⟩

theorem incarnation_some {generation createdAtMs : ℕ}
    (h : incarnation generation createdAtMs i = some s) :
    i.state = some s ∧ s.generation = generation ∧ s.createdAtMs = createdAtMs := by
  obtain ⟨hs, hp⟩ := Option.filter_eq_some_iff.1 h
  exact ⟨hs, by simpa using hp⟩

end Wdl.Workflow
