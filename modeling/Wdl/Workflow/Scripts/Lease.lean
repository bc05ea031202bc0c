import Wdl.Workflow.EventIndex

/-!
# The scripts of run claims and ready tokens

A dispatch claims an instance with a run token and a lease, and gives it up with
`releaseRun` or, when the run has suspended, with `clearSuspendedRun`. The sweeps
move due tokens to the ready set, and drop ready tokens that have no work.

Each script is one atomic action on the keys of the instance: it returns its
reply and the keys after it.
-/

namespace Wdl.Workflow

/-- `CLAIM_RUN_SCRIPT`. -/
def claimRun (expectedStatus : Status) (generation token expiresAt now createdAtMs : ℕ)
    (i : Instance) : Bool × Instance :=
  match i.state with
  | none => (false, i)
  | some s =>
    if s.status ≠ expectedStatus then (false, i)
    else if s.generation ≠ generation ∨ s.createdAtMs ≠ createdAtMs then (false, i)
    else if s.runToken.isSome ∧ now < s.runLeaseExpiresAtMs.getD 0 then (false, i)
    else (true, i.setState { s with
      status := .running, runToken := some token, runLeaseExpiresAtMs := some expiresAt })

/-- What `RELEASE_RUN_SCRIPT` replies. -/
inductive ReleaseReply
  | stale | released | suspended
  deriving DecidableEq

/-- `RELEASE_RUN_SCRIPT`. It puts the status back, and touches no hint. -/
def releaseRun (generation token : ℕ) (status : Status) (i : Instance) : ReleaseReply × Instance :=
  match i.state with
  | none => (.stale, i)
  | some s =>
    if s.generation ≠ generation ∨ s.runToken ≠ some token then (.stale, i)
    else if s.status = .waiting then (.suspended, i)
    else if s.status ≠ .running then (.stale, i)
    else (.released, i.setState { s.dropRun with status := status })

/-- `CLEAR_SUSPENDED_RUN_SCRIPT`. The ready token is kept when an event of the
    type last waited for is buffered. -/
def clearSuspendedRun (generation token : ℕ) (i : Instance) : Bool × Instance :=
  match i.state with
  | none => (false, i)
  | some s =>
    if s.status ≠ .waiting ∨ s.generation ≠ generation ∨ s.runToken ≠ some token then (false, i)
    else
      match s.waitingEventIndexPrefix with
      | some pre =>
        if indexRange i.eventIndex pre 1 ≠ [] then (true, i.setState s.dropRun)
        else (true, { i.setState s.dropRun with ready := false })
      | none => (true, { i.setState s.dropRun with ready := false })

/-- `REQUEUE_EXPIRED_RUN_SCRIPT`. -/
def requeueExpiredRun (now generation createdAtMs : ℕ) (i : Instance) : Bool × Instance :=
  match i.state with
  | none => (false, i)
  | some s =>
    if s.status ≠ .running then (false, i)
    else if now < s.runLeaseExpiresAtMs.getD 0 then (false, i)
    else if s.generation ≠ generation ∨ s.createdAtMs ≠ createdAtMs then (false, i)
    else (true, (i.setState { s.dropRun with status := .queued }).addReady)

/-- `MOVE_DUE_TOKEN_SCRIPT`. A token whose instance is neither queued nor waiting
    leaves the due set without entering the ready set. -/
def moveDueToken (now : ℕ) (i : Instance) : Bool × Instance :=
  match i.due with
  | none => (false, i)
  | some score =>
    if now < score then (false, i)
    else
      match i.state with
      | none => (false, { i with due := none })
      | some s =>
        if s.status ≠ .queued ∧ s.status ≠ .waiting then (false, { i with due := none })
        else if s.runToken.isSome then
          if now < s.runLeaseExpiresAtMs.getD 0 then (false, i)
          else (true, { (i.setState s.dropRun).addReady with due := none })
        else (true, { i.addReady with due := none })

/-- `REMOVE_READY_TOKEN_IF_TERMINAL_SCRIPT`. -/
def removeReadyTokenIfTerminal (generation : ℕ) (i : Instance) : Bool × Instance :=
  match i.state with
  | none => (false, i)
  | some s =>
    if s.generation ≠ generation then (false, i)
    else if s.status.terminal then (true, { i with ready := false })
    else (false, i)

/-- `REMOVE_READY_MEMBER_IF_STATE_MISSING_SCRIPT`. -/
def removeReadyTokenIfStateMissing (i : Instance) : Bool × Instance :=
  match i.state with
  | some _ => (false, i)
  | none => (true, { i with ready := false })

/-- `PRUNE_READY_SHARD_SCRIPT`. -/
def pruneReadyShard (i : Instance) : Bool × Instance :=
  if i.ready ∨ i.othersReady then (false, i) else (true, { i with active := false })

end Wdl.Workflow
