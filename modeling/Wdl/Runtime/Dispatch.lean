import Wdl.Base.Machine
import Wdl.Runtime.StepController

/-!
# The dispatch of a workflow run

`handleWorkflowRunDispatch` calls the tenant's workflow and waits for it, but not beyond the
deadline of the dispatch. When the workflow has returned or thrown, or the deadline has passed,
it closes the controller, waits for the steps that are still in flight, if there are any, and
decides on the outcome.

The dispatch is a machine. Its events are those of the tenant (steps are called, callbacks
settle, the run returns or throws), those of the backend (its answers, in any order), the
promises that track the steps, the passing of time, and the dispatcher going on where it
waited. It ends with the response.
-/

namespace Wdl.Runtime

open Option

/-- What the response says. -/
inductive RunOutcome
  | completed
  | suspended
  | failed (error : ErrorRecord)
  /-- 503 `workflow_backend_unavailable` -/
  | infrastructure
  deriving DecidableEq, Repr

/-- The response, and when the dispatcher has looked at the clock last. -/
structure Response where
  outcome : RunOutcome
  fixedAt : ℕ
  deriving DecidableEq, Repr

/-- Where the dispatcher is. -/
inductive Phase
  | starting
  /-- It waits for the run. -/
  | running
  /-- The run has returned or thrown, but the dispatcher has not noticed. -/
  | returned (thrown : Option Reason)
  /-- It waits for the steps in flight. -/
  | settling (caught : Reason)
  | responded (response : Response)
  deriving DecidableEq, Repr

/-- A dispatch. -/
structure Dispatch where
  now : ℕ := 0
  phase : Phase := .starting
  controller : Controller := {}
  /-- Whether the wait for the steps in flight has timed out. -/
  timedOut : Bool := false

/-- What the dispatcher meets when it handles the end of a run: what the clock shows each time
    it looks, and what serializing the output or the error throws. -/
structure Handling where
  assertedAt : ℕ
  serializedAt : ℕ
  caughtAt : ℕ
  finishedAt : ℕ
  output : Option Reason := none
  error : Option Reason := none

/-- The clock does not go back. -/
def Handling.From (h : Handling) (now : ℕ) : Prop :=
  now ≤ h.assertedAt ∧ h.assertedAt ≤ h.serializedAt ∧ h.serializedAt ≤ h.caughtAt ∧
    h.caughtAt ≤ h.finishedAt

instance (h : Handling) (now : ℕ) : Decidable (h.From now) :=
  inferInstanceAs (Decidable (_ ∧ _))

namespace Dispatch

def respond (d : Dispatch) (outcome : RunOutcome) (t : ℕ) : Dispatch :=
  { d with phase := .responded ⟨outcome, t⟩, now := t }

/-- The outcome, unless the deadline has passed when the response is ready. -/
def respondBefore (d : Dispatch) (dispatchDeadlineMs : ℕ) (outcome : RunOutcome) (t : ℕ) :
    Dispatch :=
  if dispatchDeadlineMs ≤ t then d.respond .infrastructure t else d.respond outcome t

/-- The error of a failed run, or the error of serializing it. -/
def reportedError (error : ErrorRecord) (serialization : Option Reason) : ErrorRecord :=
  serialization.elim error workflowError

/-- The response to what was caught, with the error of the step that failed first. -/
def conclude (d : Dispatch) (dispatchDeadlineMs : ℕ) (caught : Reason)
    (terminalStepError : Option ErrorRecord) (h : Handling) : Dispatch :=
  if caught.errorClass = .infrastructure then d.respond .infrastructure h.finishedAt
  else if terminalStepError = none ∧ d.controller.suspended ∧ isWorkflowSuspensionSignal caught then
    d.respondBefore dispatchDeadlineMs .suspended h.finishedAt
  else
    d.respondBefore dispatchDeadlineMs
      (.failed (reportedError (terminalStepError.getD (workflowError caught)) h.error)) h.finishedAt

/-- What was caught, unless the infrastructure was reported or the deadline has passed. -/
def judge (c : Controller) (dispatchDeadlineMs : ℕ) (caught : Reason) (caughtAt : ℕ) : Reason :=
  if c.reportedWith caught then workflowInfrastructureError .dispatch
  else if caught.errorClass ≠ .infrastructure ∧ dispatchDeadlineMs ≤ caughtAt then
    workflowInfrastructureError .dispatch
  else caught

/-- The end of the `catch` block, with the steps settled. -/
def finish (d : Dispatch) (dispatchDeadlineMs : ℕ) (caught : Reason) (h : Handling) : Dispatch :=
  match d.controller.terminal with
  | some (failure, error) =>
    if failure.errorClass = .infrastructure ∨
        (judge d.controller dispatchDeadlineMs caught h.caughtAt).errorClass ≠ .infrastructure then
      { d with controller := d.controller.closeForRunReturn }.conclude dispatchDeadlineMs failure
        (some error) h
    else
      { d with controller := d.controller.closeForRunReturn }.conclude dispatchDeadlineMs
        (judge d.controller dispatchDeadlineMs caught h.caughtAt) none h
  | none =>
    { d with controller := d.controller.closeForRunReturn }.conclude dispatchDeadlineMs
      (judge d.controller dispatchDeadlineMs caught h.caughtAt) none h

/-- Whether the steps in flight may go on as if the run had not returned. -/
def letsStepsGoOn (c : Controller) (caught : Reason) : Bool :=
  (c.suspended && isWorkflowSuspensionSignal caught) ||
    decide (caught ∈ c.trackedStepFailureReasons)

/-- The `catch` block, to the wait for the steps in flight. -/
def catchError (d : Dispatch) (dispatchDeadlineMs : ℕ) (caught : Reason) (h : Handling) :
    Dispatch :=
  if d.controller.hasInFlightSteps then
    { d with
      phase := .settling caught
      controller :=
        if letsStepsGoOn d.controller caught then d.controller.closeStepAdmission
        else d.controller.closeForRunReturn }
  else d.finish dispatchDeadlineMs caught h

/-- The run has returned, no step is in flight, has failed or was suspended. -/
def complete (d : Dispatch) (dispatchDeadlineMs : ℕ) (h : Handling) : Dispatch :=
  if dispatchDeadlineMs ≤ h.assertedAt then
    d.catchError dispatchDeadlineMs (workflowInfrastructureError .dispatch) h
  else
    match h.output with
    | some reason => d.catchError dispatchDeadlineMs reason h
    | none => d.respondBefore dispatchDeadlineMs .completed h.serializedAt

/-- The run has returned, and the controller was closed. -/
def runReturned (d : Dispatch) (dispatchDeadlineMs : ℕ) (h : Handling) : Dispatch :=
  if d.controller.hasInFlightSteps then
    d.catchError dispatchDeadlineMs
      (workflowStepError .dispatch "workflow_invalid_step"
        "workflow run returned while workflow steps were still in flight") h
  else
    match d.controller.terminal with
    | some (failure, _) => d.catchError dispatchDeadlineMs failure h
    | none =>
      if d.controller.suspended then
        d.catchError dispatchDeadlineMs
          (workflowStepError .dispatch "workflow_invalid_step"
            "workflow run returned after a step suspension was registered") h
      else d.complete dispatchDeadlineMs h

/-- The dispatcher goes on after the run. -/
def afterRun (d : Dispatch) (dispatchDeadlineMs : ℕ) (h : Handling) : Option Reason → Dispatch
  | some caught => d.catchError dispatchDeadlineMs caught h
  | none =>
    { d with controller := d.controller.closeForRunReturn }.runReturned dispatchDeadlineMs h

/-- What comes before the run: `failure` is what is thrown on the way. -/
def start (d : Dispatch) (dispatchDeadlineMs : ℕ) (failure : Option Reason) (h : Handling) :
    Dispatch :=
  if dispatchDeadlineMs ≤ h.assertedAt then
    d.catchError dispatchDeadlineMs (workflowInfrastructureError .dispatch) h
  else
    match failure with
    | some reason => d.catchError dispatchDeadlineMs reason h
    | none =>
      if dispatchDeadlineMs ≤ h.serializedAt then
        d.catchError dispatchDeadlineMs (workflowInfrastructureError .dispatch) h
      else { d with phase := .running, now := h.serializedAt }

end Dispatch

/-- What can happen. -/
inductive Event
  | elapse (t : ℕ)
  /-- A worker reports a failure of the infrastructure. -/
  | report
  | start (failure : Option Reason) (h : Handling)
  | callDo (args : Controller.DoArguments)
  | callSuspending (kind : SuspendingKind) (args : Controller.SuspendingArguments)
  | step (i : ℕ) (answer : Controller.Answer)
  | track (i : ℕ)
  /-- The run returns or throws, or the deadline has passed. -/
  | runSettled (thrown : Option Reason)
  | resume (h : Handling)
  /-- No step is in flight any more. -/
  | settled (h : Handling)
  /-- The time for the steps in flight is over. -/
  | timeout (h : Handling)

/-- The tenant's code may run. -/
def Phase.tenantRuns : Phase → Bool
  | .running => true
  | .returned _ => true
  | .settling _ => true
  | _ => false

namespace Dispatch

/-- An event of the controller. -/
def withController (d : Dispatch) (c : Controller) : Dispatch := { d with controller := c }

/-- An event of a step. -/
def onStep (d : Dispatch) (i : ℕ) (f : Step → Option Controller) : Option Dispatch :=
  ((d.controller.steps[i]?).bind f).map d.withController

def next (dispatchDeadlineMs : ℕ) (d : Dispatch) : Event → Option Dispatch
  | .elapse t =>
    if d.now ≤ t ∧ (d.phase = .starting ∨ d.phase.tenantRuns) then some { d with now := t }
    else none
  | .report =>
    if d.phase.tenantRuns then some (d.withController { d.controller with reported := true })
    else none
  | .start failure h =>
    if d.phase = .starting ∧ h.From d.now then some (d.start dispatchDeadlineMs failure h) else none
  | .callDo args =>
    if d.phase.tenantRuns then some (d.withController (d.controller.callDo args)) else none
  | .callSuspending kind args =>
    if d.phase.tenantRuns then some (d.withController (d.controller.callSuspending kind args))
    else none
  | .step i answer =>
    if d.phase.tenantRuns then d.onStep i fun s => d.controller.resumeStep i s answer else none
  | .track i => if d.phase.tenantRuns then d.onStep i fun s => d.controller.track i s else none
  | .runSettled thrown =>
    if d.phase = .running then some { d with phase := .returned thrown } else none
  | .resume h =>
    match d.phase with
    | .returned thrown =>
      if h.From d.now then some (d.afterRun dispatchDeadlineMs h thrown) else none
    | _ => none
  | .settled h =>
    match d.phase with
    | .settling caught =>
      if h.From d.now ∧ d.controller.allTracked then
        some (d.finish dispatchDeadlineMs caught h)
      else none
    | _ => none
  | .timeout h =>
    match d.phase with
    | .settling _ =>
      if h.From d.now then
        some ({ d with timedOut := true }.finish dispatchDeadlineMs
          (workflowInfrastructureError .dispatch) h)
      else none
    | _ => none

/-- The events that can happen, with what becomes of the dispatch. -/
inductive Next (deadline : ℕ) (d : Dispatch) : Event → Dispatch → Prop
  | elapse (t : ℕ) (h : d.phase = .starting ∨ d.phase.tenantRuns = true) :
      Next deadline d (.elapse t) { d with now := t }
  | report (runs : d.phase.tenantRuns = true) :
      Next deadline d .report (d.withController { d.controller with reported := true })
  | start (failure : Option Reason) (h : Handling) (starting : d.phase = .starting) :
      Next deadline d (.start failure h) (d.start deadline failure h)
  | callDo (args : Controller.DoArguments) (runs : d.phase.tenantRuns = true) :
      Next deadline d (.callDo args) (d.withController (d.controller.callDo args))
  | callSuspending (kind : SuspendingKind) (args : Controller.SuspendingArguments)
      (runs : d.phase.tenantRuns = true) : Next deadline d (.callSuspending kind args)
        (d.withController (d.controller.callSuspending kind args))
  | step (i : ℕ) (answer : Controller.Answer) (s : Step) (c : Controller)
      (runs : d.phase.tenantRuns = true) (hs : d.controller.steps[i]? = some s)
      (hc : d.controller.resumeStep i s answer = some c) :
      Next deadline d (.step i answer) (d.withController c)
  | track (i : ℕ) (s : Step) (c : Controller) (runs : d.phase.tenantRuns = true)
      (hs : d.controller.steps[i]? = some s) (hc : d.controller.track i s = some c) :
      Next deadline d (.track i) (d.withController c)
  | runSettled (thrown : Option Reason) (running : d.phase = .running) :
      Next deadline d (.runSettled thrown) { d with phase := .returned thrown }
  | resume (h : Handling) (thrown : Option Reason) (returned : d.phase = .returned thrown) :
      Next deadline d (.resume h) (d.afterRun deadline h thrown)
  | settled (h : Handling) (caught : Reason) (settling : d.phase = .settling caught)
      (tracked : d.controller.allTracked = true) :
      Next deadline d (.settled h) (d.finish deadline caught h)
  | timeout (h : Handling) (caught : Reason) (settling : d.phase = .settling caught) :
      Next deadline d (.timeout h) ({ d with timedOut := true }.finish deadline
        (workflowInfrastructureError .dispatch) h)

theorem next_cases {dispatchDeadlineMs : ℕ} {d d' : Dispatch} {e : Event}
    (h : d.next dispatchDeadlineMs e = some d') : Next dispatchDeadlineMs d e d' := by
  cases e <;> simp only [next, onStep, ite_none_right_eq_some, Option.some.injEq,
    map_eq_some_iff, bind_eq_some_iff] at h
  case elapse t => exact h.2 ▸ .elapse t h.1.2
  case report => exact h.2 ▸ .report h.1
  case start failure handling => exact h.2 ▸ .start failure handling h.1.1
  case callDo args => exact h.2 ▸ .callDo args h.1
  case callSuspending kind args => exact h.2 ▸ .callSuspending kind args h.1
  case step i answer =>
    obtain ⟨hruns, c, ⟨s, hs, hc⟩, rfl⟩ := h
    exact .step i answer s c hruns hs hc
  case track i =>
    obtain ⟨hruns, c, ⟨s, hs, hc⟩, rfl⟩ := h
    exact .track i s c hruns hs hc
  case runSettled thrown => exact h.2 ▸ .runSettled thrown h.1
  case resume handling =>
    split at h
    next thrown hphase =>
      obtain ⟨-, ⟨⟩⟩ := ite_none_right_eq_some.1 h
      exact .resume handling thrown hphase
    next => cases h
  case settled handling =>
    split at h
    next caught hphase =>
      obtain ⟨hcond, ⟨⟩⟩ := ite_none_right_eq_some.1 h
      exact .settled handling caught hphase hcond.2
    next => cases h
  case timeout handling =>
    split at h
    next caught hphase =>
      obtain ⟨-, ⟨⟩⟩ := ite_none_right_eq_some.1 h
      exact .timeout handling caught hphase
    next => cases h

/-- The dispatch of one run. -/
def machine (reportId : String) (dispatchDeadlineMs : ℕ) : Machine Dispatch Event where
  start := { controller := { reportId } }
  next := next dispatchDeadlineMs

end Dispatch

end Wdl.Runtime
