import Mathlib.Data.List.Sort

/-!
# The step controller

A tenant's workflow calls steps on the controller of its dispatch, in any order: it may await
them, race them, catch their errors or drop them. The controller admits a step or refuses it,
drives it through its calls to the backend, and keeps what the dispatcher needs to decide the
outcome: whether a step has failed, whether one was suspended, and which ones are in flight.

A step is an asynchronous function. Between two of its waits it runs alone, so it is described
by the point at which it waits (`Pc`) and by what it does there with the answer (the functions
`after…`). When it has settled, the promise that tracks it still has to notice (`track`).

What the replay cache holds and the bodies of the requests are left to the answers: whatever
the cache says about a step, and whatever fails when a request is built, is an answer.
-/

namespace Wdl.Runtime

/-! ## Errors -/

/-- What an error is to the dispatcher. -/
inductive ErrorClass
  /-- An instance of `WorkflowSuspended`. -/
  | suspended
  /-- An error of `workflowInfrastructureError`. -/
  | infrastructure
  | ordinary
  deriving DecidableEq, Repr

/-- Who made an error: errors are told apart as objects. -/
inductive Origin
  | tenant (n : ℕ)
  | call (n : ℕ)
  | dispatch
  deriving DecidableEq, Repr

/-- Something that was thrown. -/
structure Reason where
  origin : Origin
  errorClass : ErrorClass
  name : String
  message : String
  deriving DecidableEq, Repr

/-- What is reported of an error. -/
structure ErrorRecord where
  name : String
  message : String
  deriving DecidableEq, Repr

def workflowError (reason : Reason) : ErrorRecord :=
  ⟨if reason.name = "" then "Error" else reason.name, reason.message⟩

def workflowStepError (origin : Origin) (code message : String) : Reason :=
  ⟨origin, .ordinary, code, message⟩

def workflowInfrastructureError (origin : Origin) : Reason :=
  ⟨origin, .infrastructure, "workflow_backend_unavailable", "Workflow backend is unavailable"⟩

def workflowSuspended (origin : Origin) : Reason :=
  ⟨origin, .suspended, "WorkflowSuspended", "Workflow run suspended"⟩

/-- `isWorkflowSuspensionSignal`: a copy of the error has lost its class. -/
def isWorkflowSuspensionSignal (reason : Reason) : Bool :=
  decide (reason.errorClass = .suspended) || decide (reason.name = "WorkflowSuspended")

/-- What the runtime's own code throws while a step runs. -/
inductive Failure
  | infrastructure
  | ordinary (name message : String)
  deriving DecidableEq, Repr

def Failure.reason (origin : Origin) : Failure → Reason
  | .infrastructure => workflowInfrastructureError origin
  | .ordinary name message => ⟨origin, .ordinary, name, message⟩

/-! ## Steps -/

/-- The steps that register something to wait for, with `runSuspendingStep`. -/
inductive SuspendingKind
  | sleep | sleepUntil | waitForEvent
  deriving DecidableEq, Repr

inductive StepKind
  | doStep
  | suspending (kind : SuspendingKind)
  deriving DecidableEq, Repr

def StepKind.isSuspending : StepKind → Bool
  | .doStep => false
  | .suspending _ => true

/-- Only an event that was waited for has an output. -/
def StepKind.returnsOutput (kind : StepKind) : Bool := decide (kind = .suspending .waitForEvent)

/-- Which step of the run it is, and the completed steps it comes after. -/
structure StepIdentity where
  ordinal : ℕ
  dependencies : List ℕ
  deriving DecidableEq, Repr

/-- Where a step waits. -/
inductive Pc
  /-- For `cachedCompletion`. -/
  | replay
  /-- For `claim-step`. -/
  | claim
  /-- For the callback of the tenant. -/
  | callback
  /-- For `infrastructureFailure`, after the callback has failed. -/
  | failureCheck (err : Reason) (reported : Bool)
  /-- For `commit-step-error`. -/
  | commitError (err : Reason)
  /-- For `commit-step-success`. -/
  | commitSuccess
  /-- For `register-sleep` or `register-wait`. -/
  | register
  /-- It has returned, or thrown, but the promise that tracks it has not noticed. -/
  | settled (thrown : Option Reason)
  /-- The promise that tracks it has settled, too. -/
  | tracked (thrown : Option Reason)
  deriving DecidableEq, Repr

/-- A step waits for the backend, other than for a page of the replay. -/
def Pc.awaitsBackend : Pc → Bool
  | .claim => true
  | .register => true
  | .commitError _ => true
  | .commitSuccess => true
  | _ => false

/-- A step that was called. -/
structure Step where
  kind : StepKind
  /-- The call that made it. -/
  call : ℕ
  identity : Option StepIdentity
  /-- It passed `assertCanStartStep`. -/
  admitted : Bool
  pc : Pc
  /-- `markActiveStepSettled` -/
  settled : Bool := false
  /-- The backend has registered it as waiting. -/
  waiting : Bool := false
  deriving DecidableEq, Repr

namespace Step

/-- The identity in the record of an active step: suspending steps are tracked without. -/
def recordIdentity (s : Step) : Option StepIdentity :=
  if s.kind = .doStep then s.identity else none

/-- There is still a record of it among the active ones. -/
def active (s : Step) : Bool :=
  match s.pc with
  | .tracked _ => false
  | _ => true

end Step

/-! ## The controller -/

/-- What a controller keeps. -/
structure Controller where
  ordinal : ℕ := 0
  startedSteps : ℕ := 0
  suspendingStepInFlight : Bool := false
  suspended : Bool := false
  runReturned : Bool := false
  stepAdmissionClosed : Bool := false
  stepCallbackDepth : ℕ := 0
  /-- `terminalStepFailure` and `terminalStepError`, once a failure was recorded. -/
  terminal : Option (Reason × ErrorRecord) := none
  trackedStepFailureReasons : List Reason := []
  dependencyFrontier : List ℕ := []
  /-- The infrastructure report of the dispatch. -/
  reportId : String := ""
  reported : Bool := false
  steps : List Step := []
  calls : ℕ := 0
  /-- Whether a call to the backend has failed as an infrastructure error. -/
  backendFailed : Bool := false

def maxWorkflowStartedStepsPerRunTurn : ℕ := 1000

def maxWorkflowActiveStepsPerRunTurn : ℕ := 1000

/-- The message of an error by which a worker tells that the report itself has failed. -/
def infrastructureReportFailureMessage (reportId : String) : String :=
  "__wdlWorkflowInfrastructureReporter:" ++ reportId

namespace Controller

/-- `infrastructureReport.reported` -/
def reportedWith (c : Controller) (reason : Reason) : Bool :=
  c.reported || decide (reason.message = infrastructureReportFailureMessage c.reportId)

/-- The first failure is kept, unless a later one is of the infrastructure and it is not. -/
def rememberTerminalStepFailure (c : Controller) (reason : Reason) (error : ErrorRecord) :
    Controller :=
  match c.terminal with
  | none => { c with terminal := some (reason, error) }
  | some (failure, _) =>
    if reason.errorClass ≠ .infrastructure ∨ failure.errorClass = .infrastructure then c
    else { c with terminal := some (reason, error) }

def activeBlockingStepRecords (c : Controller) : List Step :=
  c.steps.filter fun s =>
    s.active && !s.settled &&
      !(s.recordIdentity.any fun identity => decide (identity.ordinal ∈ c.dependencyFrontier))

def hasInFlightSteps (c : Controller) : Bool := !c.activeBlockingStepRecords.isEmpty

/-- A record stands in the way of a step with other dependencies. -/
def blocksFanOut (dependencies : List ℕ) (s : Step) : Bool :=
  !(s.recordIdentity.any fun identity => decide (identity.dependencies = dependencies))

/-- `assertCanStartStep`, with what it throws. -/
def assertCanStartStep (c : Controller) (origin : Origin) (kind : StepKind)
    (dependencies : List ℕ) : Option Reason :=
  if c.runReturned || c.stepAdmissionClosed then
    some (workflowStepError origin "workflow_invalid_step"
      "workflow step cannot start after the run returned")
  else if c.suspended then
    some (workflowStepError origin "workflow_invalid_step"
      "workflow cannot start another step after a suspension was registered")
  else if 0 < c.stepCallbackDepth then
    some (workflowStepError origin "workflow_invalid_step"
      "workflow steps cannot start while another step.do callback is in flight")
  else
    match c.terminal with
    | some (failure, _) => some failure
    | none =>
      if kind.isSuspending then
        if c.hasInFlightSteps then
          some (workflowStepError origin "workflow_invalid_step"
            "workflow suspending steps must execute when no other step is in flight")
        else none
      else if c.suspendingStepInFlight then
        some (workflowStepError origin "workflow_invalid_step"
          "workflow step.do cannot run while a suspending step is in flight")
      else if c.activeBlockingStepRecords.any (blocksFanOut dependencies) then
        some (workflowStepError origin "workflow_invalid_step"
          "workflow step.do fan-out must be created before awaiting prior steps")
      else if maxWorkflowActiveStepsPerRunTurn ≤ c.activeBlockingStepRecords.length then
        some (workflowStepError origin "request_too_large"
          "workflow run has more than 1000 workflow steps in flight")
      else none

/-- What `assertRunStillOpen` throws. -/
def runReturnedError (origin : Origin) : Reason :=
  workflowStepError origin "workflow_invalid_step"
    "workflow run returned while workflow steps were still in flight"

/-- `nextStepIdentity` -/
def nextStepIdentity (c : Controller) : StepIdentity :=
  ⟨c.ordinal, c.dependencyFrontier.insertionSort (· ≤ ·)⟩

/-! ### Calls -/

def addStep (c : Controller) (s : Step) : Controller := { c with steps := c.steps ++ [s] }

/-- What the tenant passes to `step.do`. -/
structure DoArguments where
  hasRollbackOptions : Bool
  /-- The name, if it is a text. -/
  name : Option String
  hasCallback : Bool

def doArgumentError (args : DoArguments) : Option String :=
  if args.hasRollbackOptions then
    some "workflow step.do rollback options are not supported by WDL"
  else if args.name = none ∨ args.name = some "" then
    some "workflow step name must be a non-empty string"
  else if !args.hasCallback then some "workflow step.do requires a callback"
  else none

/-- A call of `step.do` is refused. -/
def refuse (c : Controller) (reason : Reason) : Controller :=
  if reason.errorClass = .suspended then c
  else c.rememberTerminalStepFailure reason (workflowError reason)

/-- A call of `step.do` with arguments that are right. -/
def startDo (c : Controller) : Controller :=
  match { c with ordinal := c.ordinal + 1 }.assertCanStartStep (.call c.calls) .doStep
      c.nextStepIdentity.dependencies with
  | some reason => { c with ordinal := c.ordinal + 1, calls := c.calls + 1 }.refuse reason
  | none =>
    { c with ordinal := c.ordinal + 1, calls := c.calls + 1 }.addStep
      { kind := .doStep, call := c.calls, identity := some c.nextStepIdentity,
        admitted := true, pc := .replay }

/-- `facade.do` -/
def callDo (c : Controller) (args : DoArguments) : Controller :=
  match doArgumentError args with
  | some message =>
    { c with calls := c.calls + 1 }.refuse
      (workflowStepError (.call c.calls) "workflow_invalid_step" message)
  | none => c.startDo

/-- What the tenant passes to a suspending step. -/
structure SuspendingArguments where
  /-- The name, if it is a text. -/
  name : Option String
  /-- What is wrong with the other arguments. -/
  argumentError : Option String

def nameError : SuspendingKind → String
  | .sleep => "workflow sleep name must be a non-empty string"
  | .sleepUntil => "workflow sleepUntil name must be a non-empty string"
  | .waitForEvent => "workflow waitForEvent name must be a non-empty string"

/-- A suspending step that fails before it waits is tracked all the same. -/
def addFailed (c : Controller) (kind : SuspendingKind) (admitted : Bool) (reason : Reason) :
    Controller :=
  { c with calls := c.calls + 1 }.addStep
    { kind := .suspending kind, call := c.calls, identity := none, admitted,
      pc := .settled (some reason) }

/-- A suspending step that may start. -/
def startSuspending (c : Controller) (kind : SuspendingKind) : Controller :=
  { c with
    ordinal := c.ordinal + 1, calls := c.calls + 1, suspendingStepInFlight := true }.addStep
      { kind := .suspending kind, call := c.calls, identity := some c.nextStepIdentity,
        admitted := true, pc := .replay }

/-- `facade.sleep`, `facade.sleepUntil` and `facade.waitForEvent` -/
def callSuspending (c : Controller) (kind : SuspendingKind) (args : SuspendingArguments) :
    Controller :=
  if args.name = none ∨ args.name = some "" then
    c.addFailed kind false
      (workflowStepError (.call c.calls) "workflow_invalid_step" (nameError kind))
  else
    match c.assertCanStartStep (.call c.calls) (.suspending kind) [] with
    | some reason => c.addFailed kind false reason
    | none =>
      match args.argumentError with
      | some message =>
        c.addFailed kind true (workflowStepError (.call c.calls) "workflow_invalid_step" message)
      | none => c.startSuspending kind

/-! ### Steps go on -/

def setPc (c : Controller) (i : ℕ) (pc : Pc) : Controller :=
  { c with steps := c.steps.modify i fun s => { s with pc } }

/-- A step returns or throws. -/
def finishStep (c : Controller) (i : ℕ) (s : Step) (thrown : Option Reason) : Controller :=
  { c with
    suspendingStepInFlight := c.suspendingStepInFlight && !s.kind.isSuspending }.setPc i
      (.settled thrown)

/-- A step throws an error of the runtime. -/
def throwStep (c : Controller) (i : ℕ) (s : Step) (failure : Failure) : Controller :=
  c.finishStep i s (some (failure.reason (.call s.call)))

/-- A call of a step to the backend fails as an infrastructure error. -/
def failBackend (c : Controller) (i : ℕ) (s : Step) : Controller :=
  { c with backendFailed := true }.throwStep i s .infrastructure

/-- A call of a step to the backend is rejected. -/
def rejectBackend (c : Controller) (i : ℕ) (s : Step) : Failure → Controller
  | .infrastructure => c.failBackend i s
  | .ordinary name message => c.throwStep i s (.ordinary name message)

/-- `markStepCompleted` with `markActiveStepSettled` -/
def markStepCompleted (c : Controller) (identity : StepIdentity) : Controller :=
  { c with
    dependencyFrontier :=
      (c.dependencyFrontier.filter fun o => o ∉ identity.dependencies) ++ [identity.ordinal]
    steps :=
      c.steps.map fun s =>
        if s.active ∧ s.recordIdentity.map StepIdentity.ordinal = some identity.ordinal then
          { s with settled := true }
        else s }

/-- A step has completed. -/
def completeStep (c : Controller) (i : ℕ) (s : Step) : Controller :=
  (s.identity.elim c c.markStepCompleted).finishStep i s none

/-- The backend has registered a step as waiting. -/
def suspendStep (c : Controller) (i : ℕ) (s : Step) : Controller :=
  { c with
    suspended := true
    steps := c.steps.modify i fun s => { s with waiting := true } }.finishStep i s
      (some (workflowSuspended (.call s.call)))

/-- What `assertRunStillOpen` throws in a step. -/
def throwRunReturned (c : Controller) (i : ℕ) (s : Step) : Controller :=
  c.finishStep i s (some (runReturnedError (.call s.call)))

/-- What `cachedCompletion` says of a step. -/
inductive Replay
  | complete
  | failed (name message : String)
  | miss
  | error (failure : Failure)
  deriving DecidableEq, Repr

/-- The state in a reply of the backend. -/
inductive ReplyState
  | complete | waiting | failed | run | other
  deriving DecidableEq, Repr

/-- A reply of the backend. -/
structure Reply where
  state : ReplyState
  hasOutput : Bool := true
  hasError : Bool := true
  /-- The name and the message in its error. -/
  error : String × String := ("Error", "Workflow step failed")
  deriving DecidableEq, Repr

/-- A step that was not replayed is started with a call to the backend. -/
def startStep (c : Controller) (i : ℕ) (s : Step) : Controller :=
  if c.runReturned then c.throwRunReturned i s
  else if maxWorkflowStartedStepsPerRunTurn < c.startedSteps + 1 then
    { c with startedSteps := c.startedSteps + 1 }.throwStep i s
      (.ordinary "request_too_large"
        "workflow run started more than 1000 steps in one dispatch turn")
  else
    { c with startedSteps := c.startedSteps + 1 }.setPc i
      (if s.kind.isSuspending then .register else .claim)

def afterReplay (c : Controller) (i : ℕ) (s : Step) : Replay → Controller
  | .error failure => c.throwStep i s failure
  | .complete => c.completeStep i s
  | .failed name message =>
    -- only `step.do` fails with what was replayed
    if s.kind.isSuspending then c.startStep i s else c.throwStep i s (.ordinary name message)
  | .miss => c.startStep i s

/-- `cacheStep`, which may throw. -/
def cacheStep (c : Controller) (i : ℕ) (s : Step) (cached : Option Failure)
    (andThen : Controller) : Controller :=
  match cached with
  | some failure => c.throwStep i s failure
  | none => andThen

/-- `register-sleep` or `register-wait` has answered. -/
def afterRegister (c : Controller) (i : ℕ) (s : Step) (reply : Reply) (cached : Option Failure) :
    Controller :=
  if c.runReturned then c.throwRunReturned i s
  else
    match reply.state with
    | .complete =>
      if s.kind.returnsOutput && !reply.hasOutput then c.failBackend i s
      else c.cacheStep i s cached (c.completeStep i s)
    | .waiting => c.cacheStep i s cached (c.suspendStep i s)
    | _ => c.failBackend i s

/-- `claim-step` has answered. -/
def afterClaim (c : Controller) (i : ℕ) (s : Step) (reply : Reply) (cached : Option Failure) :
    Controller :=
  if c.runReturned then c.throwRunReturned i s
  else
    match reply.state with
    | .complete =>
      if reply.hasOutput then c.cacheStep i s cached (c.completeStep i s) else c.failBackend i s
    | .waiting => c.cacheStep i s cached (c.suspendStep i s)
    | .failed =>
      if reply.hasError then
        c.cacheStep i s cached (c.throwStep i s (.ordinary reply.error.1 reply.error.2))
      else c.failBackend i s
    | .run => { c with stepCallbackDepth := c.stepCallbackDepth + 1 }.setPc i .callback
    | .other => c.failBackend i s

/-- The callback has failed, or the run has returned in the meantime. -/
def callbackFailed (c : Controller) (i : ℕ) (err : Reason) : Controller :=
  { c with reported := c.reportedWith err }.setPc i (.failureCheck err (c.reportedWith err))

/-- The callback has settled; `body` is what building the next request throws. -/
def afterCallback (c : Controller) (i : ℕ) (s : Step) (rejected : Option Reason)
    (body : Option Failure) : Controller :=
  match rejected with
  | some err => { c with stepCallbackDepth := c.stepCallbackDepth - 1 }.callbackFailed i err
  | none =>
    if c.runReturned then
      { c with stepCallbackDepth := c.stepCallbackDepth - 1 }.callbackFailed i
        (runReturnedError (.call s.call))
    else
      match body with
      | some failure =>
        { c with stepCallbackDepth := c.stepCallbackDepth - 1 }.throwStep i s failure
      | none => { c with stepCallbackDepth := c.stepCallbackDepth - 1 }.setPc i .commitSuccess

/-- `infrastructureFailure` has answered. -/
def afterFailureCheck (c : Controller) (i : ℕ) (s : Step) (err : Reason) (reported : Bool) :
    Controller :=
  if reported then c.throwStep i s .infrastructure
  else if c.runReturned then c.finishStep i s (some err)
  else c.setPc i (.commitError err)

/-- `commit-step-error` has answered. -/
def afterCommitError (c : Controller) (i : ℕ) (s : Step) (err : Reason) (reply : Reply)
    (cached : Option Failure) : Controller :=
  match reply.state with
  | .waiting => c.cacheStep i s cached (c.suspendStep i s)
  | .failed =>
    c.cacheStep i s cached
      ((c.rememberTerminalStepFailure err (workflowError err)).finishStep i s (some err))
  | _ => c.failBackend i s

/-- `commit-step-success` has answered. -/
def afterCommitSuccess (c : Controller) (i : ℕ) (s : Step) (reply : Reply)
    (cached : Option Failure) : Controller :=
  match reply.state with
  | .complete => c.cacheStep i s cached (c.completeStep i s)
  | _ => c.failBackend i s

/-- What a step waits for. -/
inductive Answer
  | replay (r : Replay)
  /-- What the backend answers, and what caching the answer throws. -/
  | backend (r : Except Failure Reply) (cached : Option Failure)
  | callback (rejected : Option Reason) (body : Option Failure)
  | checked
  deriving Repr

/-- The backend answers a step that waits for it. -/
def afterBackend (c : Controller) (i : ℕ) (s : Step) (reply : Reply) (cached : Option Failure) :
    Option Controller :=
  match s.pc with
  | .claim => some (c.afterClaim i s reply cached)
  | .register => some (c.afterRegister i s reply cached)
  | .commitError err => some (c.afterCommitError i s err reply cached)
  | .commitSuccess => some (c.afterCommitSuccess i s reply cached)
  | _ => none

/-- A step goes on with what it waited for. -/
def resumeStep (c : Controller) (i : ℕ) (s : Step) : Answer → Option Controller
  | .replay r => if s.pc = .replay then some (c.afterReplay i s r) else none
  | .backend (.error failure) _ =>
    if s.pc.awaitsBackend then some (c.rejectBackend i s failure) else none
  | .backend (.ok reply) cached => c.afterBackend i s reply cached
  | .callback rejected body =>
    if s.pc = .callback then some (c.afterCallback i s rejected body) else none
  | .checked =>
    match s.pc with
    | .failureCheck err reported => some (c.afterFailureCheck i s err reported)
    | _ => none

/-! ### Tracking -/

/-- The promise that tracks a step notices what the step has thrown. -/
def noteThrown (c : Controller) : Option Reason → Controller
  | none => c
  | some reason =>
    if reason.errorClass ≠ .suspended ∧
        (c.runReturned = false ∨ reason.errorClass = .infrastructure) then
      { c with
        trackedStepFailureReasons := c.trackedStepFailureReasons ++ [reason]
      }.rememberTerminalStepFailure reason (workflowError reason)
    else { c with trackedStepFailureReasons := c.trackedStepFailureReasons ++ [reason] }

/-- `trackStepPromise`, once the step has settled. -/
def track (c : Controller) (i : ℕ) (s : Step) : Option Controller :=
  match s.pc with
  | .settled thrown => some ((c.noteThrown thrown).setPc i (.tracked thrown))
  | _ => none

/-- No promise is left among `activeStepPromises`. -/
def allTracked (c : Controller) : Bool := c.steps.all fun s => !s.active

def closeStepAdmission (c : Controller) : Controller := { c with stepAdmissionClosed := true }

def closeForRunReturn (c : Controller) : Controller :=
  { c with stepAdmissionClosed := true, runReturned := true }

end Controller

end Wdl.Runtime
