import Wdl.Workflow.Waits

/-!
# The work of a tick

A tick moves due tokens to the ready set (`moveDueTokens`), deletes instances whose
retention has passed (`cleanupRetention`), and admits ready tokens. Admitting a
token (`processReadyWorkflowToken`) claims the run of its instance, has Runtime run
it, and commits what comes back, or gives the claim up.
-/

namespace Wdl.Workflow.Api

open ServiceM

/-! ## Claims -/

/-- A claimed run: the state that was claimed, and the token of the claim. -/
structure ClaimedWorkflowRun where
  state : State
  token : ℕ

/-- `clear_suspended_run_claim`. -/
def clearSuspendedRunClaim (run : ClaimedWorkflowRun) : ServiceM Bool :=
  eval (.clearSuspendedRun run.state.generation run.token)

/-- `release_run_claim`, back to the status that was claimed. -/
def releaseRunClaim (run : ClaimedWorkflowRun) : ServiceM Bool := do
  let reply : ReleaseReply ← eval (.releaseRun run.state.generation run.token run.state.status)
  match reply with
  | .suspended => clearSuspendedRunClaim run
  | .released => .ret true
  | .stale => .ret false

/-! ## The result of a run -/

/-- What became of the result of a run. -/
inductive RuntimeCommitOutcome
  | completed | failed | suspended | fenced
  deriving DecidableEq

/-- The state is still of the claim, and the instance can take the result of a run. -/
def currentRun (run : ClaimedWorkflowRun) (s : State) : Bool :=
  s.generation = run.state.generation ∧ s.runToken = some run.token ∧
    s.status ≠ .paused ∧ s.status.terminal = false

/-- `run_terminal_commit`, and what its verdict means for the run. -/
def runTerminalCommit (run : ClaimedWorkflowRun) (outcome : RunOutcome) (result : Payload)
    (now retentionExpiresAt overflowRetentionExpiresAt : ℕ) : ServiceM RuntimeCommitOutcome := do
  let verdict : TerminalReply ← eval (.commitRuntimeTerminal run.state.generation run.token outcome
    result now retentionExpiresAt overflowRetentionExpiresAt)
  match verdict with
  | .committed => .ret (match outcome with | .completed => .completed | .failed => .failed)
  | .overflow => .ret .failed
  | _ => .ret .fenced

/-- Fail the instance with an error. -/
def commitRuntimeFailedPayload (run : ClaimedWorkflowRun) (current : State) (now : ℕ)
    (error : Payload) : ServiceM RuntimeCommitOutcome :=
  runTerminalCommit run .failed error now (now + current.errorRetentionMs)
    (now + current.errorRetentionMs)

/-- A result that is too large fails the instance. -/
def commitTooLarge (cfg : Service) (run : ClaimedWorkflowRun) (current : State) (now : ℕ)
    (e : WorkflowError) : ServiceM RuntimeCommitOutcome := do
  let json ← ofExcept (resultJson cfg (cfg.payloadTooLargeError e.message) "error")
  commitRuntimeFailedPayload run current now json

/-- `commit_runtime_result`. -/
def commitRuntimeResult (cfg : Service) (run : ClaimedWorkflowRun) (answer : RuntimeAnswer) :
    ServiceM RuntimeCommitOutcome := do
  let current : Option State ← eval .readState
  match current with
  | none => .ret .fenced
  | some current =>
    if currentRun run current = false then .ret .fenced
    else
      match answer with
      | .error e => .fail e
      | .malformed => .fail (.internalError "Workflow runtime response is missing outcome")
      | .suspended =>
        if current.status ≠ .waiting then .ret .fenced
        else do
          let cleared ← clearSuspendedRunClaim run
          .ret (if cleared then .suspended else .fenced)
      | .completed output => do
        let t ← now
        match resultJson cfg output "output" with
        | .ok json =>
          runTerminalCommit run .completed json t (t + current.successRetentionMs)
            (t + current.errorRetentionMs)
        | .error e => commitTooLarge cfg run current t e
      | .failed error => do
        let t ← now
        match resultJson cfg error "error" with
        | .ok json => commitRuntimeFailedPayload run current t json
        | .error e => commitTooLarge cfg run current t e

/-- `finish_claimed_workflow`. The claim is given up when Runtime or the commit
    fails, unless it is the store that failed. -/
def finishClaimedWorkflow (cfg : Service) (run : ClaimedWorkflowRun) : ServiceM Unit := do
  let answer ← dispatchRuntime
  match answer with
  | .error _ => do
    let _ ← releaseRunClaim run
    .ret ()
  | answer => do
    let result ← (commitRuntimeResult cfg run answer).attempt
    match result with
    | .ok _ => .ret ()
    | .error e =>
      if e = .redis then .fail e
      else do
        let _ ← releaseRunClaim run
        .ret ()

/-- `claim_run` under the token of the process, and the run if the claim succeeds. -/
def claimAndRun (cfg : Service) (token : ℕ) (s : State) : ServiceM Unit := do
  let t ← now
  let claimed : Bool ←
    eval (.claimRun s.status s.generation token (t + cfg.runLeaseMs) t s.createdAtMs)
  if claimed then finishClaimedWorkflow cfg ⟨s, token⟩ else .ret ()

/-- `process_ready_workflow_token`: `prepare_ready_token` and what follows from it. -/
def processReadyWorkflowToken (cfg : Service) (token : ℕ) : ServiceM Unit := do
  let reply : Option State × Option Payload ← eval .readReadyStateAndParams
  match reply with
  | (none, _) => do
    let _ ← eval .removeReadyTokenIfStateMissing
    .ret ()
  | (some s, params) =>
    match s.status with
    | .running => do
      let t ← now
      let _ ← eval (.requeueExpiredRun t s.generation s.createdAtMs)
      .ret ()
    | .completed | .failed | .terminated => do
      let _ ← eval (.removeReadyTokenIfTerminal s.generation)
      .ret ()
    | .pendingCreate | .paused => .ret ()
    | .queued | .waiting => do
      let _ ← ofExcept (parsePayloadRef cfg params .params)
      claimAndRun cfg token s

/-! ## Sweeps -/

/-- `move_due_tokens`, for the token of the instance. -/
def moveDueTokens : ServiceM Unit := do
  let t ← now
  let due : Bool ← eval (.scanDue t)
  if due then do
    let _ ← eval (.moveDueToken t)
    .ret ()
  else .ret ()

/-- `prune_ready_shards`, for the shard of the instance. -/
def pruneReadyShards : ServiceM Unit := do
  let _ ← eval .pruneReadyShard
  .ret ()

/-- What the retention sweep does about a token. -/
inductive RetentionTokenState
  | removeToken
  | wait
  | cleanup (s : State)

/-- `retention_token_state`. -/
def retentionTokenState (state : Option State) (now : ℕ) : RetentionTokenState :=
  match state with
  | none => .removeToken
  | some s =>
    if s.status.terminal = false then .removeToken
    else if now < s.retentionExpiresAtMs.getD now then .wait
    else .cleanup s

/-- What a sweep remembers of a state. -/
def seenState (state : Option State) : Option (Status × ℕ × ℕ) :=
  state.map fun s => (s.status, s.generation, s.createdAtMs)

/-- `cleanup_retention`, for the token of the instance. -/
def cleanupRetention : ServiceM Unit := do
  let t ← now
  let score : Option ℕ ← eval (.scanRetention t)
  match score with
  | none => .ret ()
  | some score => do
    let state ← eval .readState
    match retentionTokenState state t with
    | .removeToken => do
      let _ ← eval (.removeRetentionToken score (seenState state))
      .ret ()
    | .wait => .ret ()
    | .cleanup s => do
      let _ ← eval (.cleanupRetention s.generation s.createdAtMs t s.frozenVersion)
      .ret ()

end Wdl.Workflow.Api
