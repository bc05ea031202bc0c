import Wdl.Runtime.Ledger

/-!
# What a controller enters in its ledger

Every function of the controller makes a sequence of entries in its ledger: `entries_callDo`,
`entries_callSuspending`, `goesOn_resumeStep` and `goesOn_track` are about everything that
happens to a controller. So the marks and the accounts are kept, whatever happens.
-/

namespace Wdl.Runtime

open List

namespace Controller

open Ledger

variable {c : Controller} {i : ℕ} {s : Step}

theorem single {l l' : Ledger} (h : Entry l l') : Entries l l' := Relation.ReflTransGen.single h

/-! ## Failures -/

theorem ledger_rememberTerminalStepFailure (c : Controller) (reason : Reason)
    (error : ErrorRecord) :
    (c.rememberTerminalStepFailure reason error).ledger = c.ledger.remember reason error := by
  unfold rememberTerminalStepFailure
  split
  case h_1 hterminal =>
    rw [Ledger.remember, Controller.ledger, Controller.ledger, hterminal]
    rfl
  case h_2 failure e hterminal =>
    split
    case isTrue hkeep =>
      rw [Ledger.remember, Controller.ledger, hterminal, recorded, if_pos hkeep]
    case isFalse hkeep =>
      rw [Ledger.remember, Controller.ledger, Controller.ledger, hterminal, recorded, if_neg hkeep]

theorem entries_refuse (c : Controller) (reason : Reason) :
    Entries c.ledger (c.refuse reason).ledger := by
  unfold refuse
  split
  case isTrue => exact .refl
  case isFalse =>
    rw [ledger_rememberTerminalStepFailure]
    exact single (.remember reason _)

/-- Only a suspended step throws a suspension of the runtime. -/
theorem reason_ne_suspended (origin : Origin) (failure : Failure) :
    (failure.reason origin).errorClass ≠ .suspended := by
  cases failure with
  | infrastructure | ordinary => exact nofun

variable {reason : Reason}

/-- What is thrown when a step may not start is an ordinary error, or what was recorded. -/
theorem excused_of_assertCanStartStep {origin : Origin} {kind : StepKind} {dependencies : List ℕ}
    (h : c.assertCanStartStep origin kind dependencies = some reason)
    (hr : reason.errorClass = .suspended) : c.ledger.Excused := by
  have hstep : ∀ code message, some (workflowStepError origin code message) ≠ some reason := by
    intro code message heq
    rw [← Option.some.inj heq] at hr
    exact ErrorClass.noConfusion hr
  unfold assertCanStartStep at h
  split at h
  case isTrue => exact absurd h (hstep _ _)
  split at h
  case isTrue => exact absurd h (hstep _ _)
  split at h
  case isTrue => exact absurd h (hstep _ _)
  split at h
  case h_1 failure e hterminal =>
    refine .inr (.inl ?_)
    rw [show c.ledger.terminal = c.terminal from rfl, hterminal]
    exact Option.some_ne_none _
  case h_2 =>
    split at h
    case isTrue =>
      split at h
      case isTrue => exact absurd h (hstep _ _)
      case isFalse => cases h
    case isFalse =>
      split at h
      case isTrue => exact absurd h (hstep _ _)
      split at h
      case isTrue => exact absurd h (hstep _ _)
      split at h
      case isTrue => exact absurd h (hstep _ _)
      case isFalse => cases h

/-! ## Calls -/

theorem entries_startDo (c : Controller) : Entries c.ledger c.startDo.ledger := by
  unfold startDo
  split
  case h_1 reason hreason =>
    exact (single .skip).trans
      (entries_refuse { c with ordinal := c.ordinal + 1, calls := c.calls + 1 } reason)
  case h_2 => exact single (.start rfl rfl rfl)

theorem entries_callDo (c : Controller) (args : DoArguments) :
    Entries c.ledger (c.callDo args).ledger := by
  unfold callDo
  split
  case h_1 message _ => exact entries_refuse { c with calls := c.calls + 1 } _
  case h_2 => exact entries_startDo c

theorem entries_addFailed (c : Controller) (kind : SuspendingKind) (admitted : Bool)
    (hr : reason.errorClass = .suspended → c.ledger.Excused) :
    Entries c.ledger (c.addFailed kind admitted reason).ledger :=
  single (.startFailed rfl rfl rfl hr)

theorem entries_callSuspending (c : Controller) (kind : SuspendingKind)
    (args : SuspendingArguments) : Entries c.ledger (c.callSuspending kind args).ledger := by
  unfold callSuspending
  split
  case isTrue => exact entries_addFailed c kind false nofun
  case isFalse =>
    split
    case h_1 reason hreason =>
      exact entries_addFailed c kind false (excused_of_assertCanStartStep hreason)
    case h_2 =>
      split
      case h_1 => exact entries_addFailed c kind true nofun
      case h_2 => exact single (.start rfl rfl rfl)

/-! ## Steps go on -/

/-- How many steps were called, and whether more may be. -/
def shape (c : Controller) : ℕ × Bool := (c.steps.length, c.stepAdmissionClosed)

/-- A step goes on: entries are made, but no step is added, and the controller is not opened. -/
structure GoesOn (c c' : Controller) : Prop where
  entries : Entries c.ledger c'.ledger
  shape : c'.shape = c.shape

variable {c' : Controller}

theorem GoesOn.of_entry (h : Entry c.ledger c'.ledger)
    (hlength : c'.steps.length = c.steps.length)
    (hclosed : c'.stepAdmissionClosed = c.stepAdmissionClosed) : GoesOn c c' :=
  ⟨single h, by rw [Controller.shape, hlength, hclosed, Controller.shape]⟩

theorem shape_rememberTerminalStepFailure (c : Controller) (reason : Reason) (error : ErrorRecord) :
    (c.rememberTerminalStepFailure reason error).shape = c.shape := by
  unfold rememberTerminalStepFailure
  split
  case h_1 => rfl
  case h_2 => split <;> rfl

theorem shape_setPc (c : Controller) (i : ℕ) (pc : Pc) : (c.setPc i pc).shape = c.shape :=
  congrArg (·, _) (length_modify _ _ _)

theorem shape_refuse (c : Controller) (reason : Reason) : (c.refuse reason).shape = c.shape := by
  unfold refuse
  split
  case isTrue => rfl
  case isFalse => exact shape_rememberTerminalStepFailure c reason _

section Resume

variable (hs : c.steps[i]? = some s) (hrun : s.pc.running = true)
include hs hrun

theorem goesOn_throwStep (failure : Failure) :
    GoesOn c (c.throwStep i s failure) :=
  .of_entry (.throw hs hrun fun h => absurd h (reason_ne_suspended _ failure))
    (length_modify ..) rfl

theorem goesOn_throwRunReturned : GoesOn c (c.throwRunReturned i s) :=
  .of_entry (.throw hs hrun fun h => ErrorClass.noConfusion h) (length_modify ..) rfl

theorem goesOn_failBackend : GoesOn c (c.failBackend i s) :=
  .of_entry (.failBackend hs hrun rfl) (length_modify ..) rfl

theorem goesOn_rejectBackend (failure : Failure) :
    GoesOn c (c.rejectBackend i s failure) := by
  cases failure with
  | infrastructure => exact goesOn_failBackend hs hrun
  | ordinary name message => exact goesOn_throwStep hs hrun (.ordinary name message)

theorem goesOn_completeStep : GoesOn c (c.completeStep i s) := by
  have hentry := Entry.complete (l := c.ledger) hs hrun
  unfold completeStep
  cases hid : s.identity with
  | none =>
    rw [hid] at hentry
    exact .of_entry hentry (length_modify ..) rfl
  | some =>
    rw [hid] at hentry
    exact .of_entry hentry ((length_modify ..).trans (length_map _)) rfl

theorem goesOn_suspendStep : GoesOn c (c.suspendStep i s) :=
  .of_entry (.suspend hs hrun rfl) ((length_modify ..).trans (length_modify ..)) rfl

theorem goesOn_cacheStep (cached : Option Failure) {andThen : Controller}
    (h : GoesOn c andThen) :
    GoesOn c (c.cacheStep i s cached andThen) := by
  cases cached with
  | none => exact h
  | some failure => exact goesOn_throwStep hs hrun failure

theorem goesOn_startStep : GoesOn c (c.startStep i s) := by
  unfold startStep
  split
  case isTrue => exact goesOn_throwRunReturned hs hrun
  case isFalse =>
    split
    case isTrue =>
      have h := @goesOn_throwStep { c with startedSteps := c.startedSteps + 1 } i s hs hrun
      exact ⟨(h _).entries, (h _).shape⟩
    case isFalse =>
      refine .of_entry (.wait hs hrun ?_) (length_modify ..) rfl
      split <;> rfl

theorem goesOn_afterReplay (replay : Replay) :
    GoesOn c (c.afterReplay i s replay) := by
  cases replay with
  | complete => exact goesOn_completeStep hs hrun
  | failed name message =>
    rw [afterReplay]
    split
    case isTrue => exact goesOn_startStep hs hrun
    case isFalse => exact goesOn_throwStep hs hrun _
  | miss => exact goesOn_startStep hs hrun
  | error failure => exact goesOn_throwStep hs hrun failure

theorem goesOn_afterRegister (reply : Reply) (cached : Option Failure) :
    GoesOn c (c.afterRegister i s reply cached) := by
  unfold afterRegister
  split
  case isTrue => exact goesOn_throwRunReturned hs hrun
  case isFalse =>
    split
    case h_1 =>
      split
      case isTrue => exact goesOn_failBackend hs hrun
      case isFalse => exact goesOn_cacheStep hs hrun cached (goesOn_completeStep hs hrun)
    case h_2 => exact goesOn_cacheStep hs hrun cached (goesOn_suspendStep hs hrun)
    case h_3 => exact goesOn_failBackend hs hrun

theorem goesOn_afterClaim (reply : Reply) (cached : Option Failure) :
    GoesOn c (c.afterClaim i s reply cached) := by
  unfold afterClaim
  split
  case isTrue => exact goesOn_throwRunReturned hs hrun
  case isFalse =>
    split
    case h_1 =>
      split
      case isTrue => exact goesOn_cacheStep hs hrun cached (goesOn_completeStep hs hrun)
      case isFalse => exact goesOn_failBackend hs hrun
    case h_2 => exact goesOn_cacheStep hs hrun cached (goesOn_suspendStep hs hrun)
    case h_3 =>
      split
      case isTrue => exact goesOn_cacheStep hs hrun cached (goesOn_throwStep hs hrun _)
      case isFalse => exact goesOn_failBackend hs hrun
    case h_4 => exact .of_entry (.wait hs hrun rfl) (length_modify ..) rfl
    case h_5 => exact goesOn_failBackend hs hrun

theorem goesOn_afterCallback (rejected : Option Reason) (body : Option Failure) :
    GoesOn c (c.afterCallback i s rejected body) := by
  unfold afterCallback
  split
  case h_1 => exact .of_entry (.wait hs hrun rfl) (length_modify ..) rfl
  case h_2 =>
    split
    case isTrue => exact .of_entry (.wait hs hrun rfl) (length_modify ..) rfl
    case isFalse =>
      split
      case h_1 failure =>
        have h := @goesOn_throwStep
          { c with stepCallbackDepth := c.stepCallbackDepth - 1 } i s hs hrun
        exact ⟨(h failure).entries, (h failure).shape⟩
      case h_2 => exact .of_entry (.wait hs hrun rfl) (length_modify ..) rfl

theorem goesOn_afterFailureCheck (err : Reason) (reported : Bool) :
    GoesOn c (c.afterFailureCheck i s err reported) := by
  unfold afterFailureCheck
  split
  case isTrue => exact goesOn_throwStep hs hrun _
  case isFalse =>
    split
    case isTrue hreturned => 
      exact .of_entry (.throw hs hrun fun _ => .inr (.inr hreturned)) (length_modify ..) rfl
    case isFalse => exact .of_entry (.wait hs hrun rfl) (length_modify ..) rfl

theorem goesOn_afterCommitError (err : Reason) (reply : Reply) (cached : Option Failure) :
    GoesOn c (c.afterCommitError i s err reply cached) := by
  unfold afterCommitError
  split
  case h_1 => exact goesOn_cacheStep hs hrun cached (goesOn_suspendStep hs hrun)
  case h_2 =>
    refine goesOn_cacheStep hs hrun cached ?_
    -- the failure is recorded before it is thrown
    have hrecorded := ledger_rememberTerminalStepFailure c err (workflowError err)
    have hthrow : Entry (c.ledger.remember err (workflowError err))
        ((c.ledger.remember err (workflowError err)).setPc i (.settled (some err))) :=
      .throw hs hrun fun _ => .remember err (workflowError err)
    rw [← hrecorded] at hthrow
    exact ⟨(single (hrecorded ▸ .remember err _)).tail hthrow,
      (shape_setPc _ i _).trans (shape_rememberTerminalStepFailure c err _)⟩
  case h_3 => exact goesOn_failBackend hs hrun

theorem goesOn_afterCommitSuccess (reply : Reply) (cached : Option Failure) :
    GoesOn c (c.afterCommitSuccess i s reply cached) := by
  unfold afterCommitSuccess
  split
  case h_1 => exact goesOn_cacheStep hs hrun cached (goesOn_completeStep hs hrun)
  case h_2 => exact goesOn_failBackend hs hrun

end Resume

theorem running_of_awaitsBackend {pc : Pc} (h : pc.awaitsBackend = true) : pc.running = true := by
  cases pc with
  | settled | tracked => exact h
  | _ => rfl

/-- A step that is answered by the backend has not settled. -/
theorem goesOn_afterBackend {reply : Reply} {cached : Option Failure} (hs : c.steps[i]? = some s)
    (h : c.afterBackend i s reply cached = some c') : GoesOn c c' := by
  unfold afterBackend at h
  split at h
  case h_1 hpc =>
    exact Option.some.inj h ▸ goesOn_afterClaim hs (hpc ▸ rfl) reply cached
  case h_2 hpc =>
    exact Option.some.inj h ▸ goesOn_afterRegister hs (hpc ▸ rfl) reply cached
  case h_3 err hpc =>
    exact Option.some.inj h ▸ goesOn_afterCommitError hs (hpc ▸ rfl) err reply cached
  case h_4 hpc =>
    exact Option.some.inj h ▸ goesOn_afterCommitSuccess hs (hpc ▸ rfl) reply cached
  case h_5 => cases h

/-- Whatever a step waited for. -/
theorem goesOn_resumeStep {answer : Answer} (hs : c.steps[i]? = some s)
    (h : c.resumeStep i s answer = some c') : GoesOn c c' := by
  cases answer with
  | replay r =>
    rw [resumeStep] at h
    split at h
    case isTrue hpc => exact Option.some.inj h ▸ goesOn_afterReplay hs (hpc ▸ rfl) r
    case isFalse => cases h
  | backend r cached =>
    cases r with
    | error failure =>
      rw [resumeStep] at h
      split at h
      case isTrue hpc =>
        exact Option.some.inj h ▸ goesOn_rejectBackend hs (running_of_awaitsBackend hpc) failure
      case isFalse => cases h
    | ok reply => exact goesOn_afterBackend hs h
  | callback rejected body =>
    rw [resumeStep] at h
    split at h
    case isTrue hpc => exact Option.some.inj h ▸ goesOn_afterCallback hs (hpc ▸ rfl) rejected body
    case isFalse => cases h
  | checked =>
    rw [resumeStep] at h
    split at h
    case h_1 err reported hpc =>
      exact Option.some.inj h ▸ goesOn_afterFailureCheck hs (hpc ▸ rfl) err reported
    case h_2 => cases h

theorem ledger_noteThrown (c : Controller) (thrown : Option Reason) :
    (c.noteThrown thrown).ledger = c.ledger.noteThrown thrown := by
  cases thrown with
  | none => rfl
  | some reason =>
    rw [Controller.noteThrown, Ledger.noteThrown,
      show c.ledger.runReturned = c.runReturned from rfl]
    split
    case isTrue =>
      rw [ledger_rememberTerminalStepFailure]
      rfl
    case isFalse => rfl

theorem goesOn_track (hs : c.steps[i]? = some s)
    (h : c.track i s = some c') : GoesOn c c' := by
  unfold Controller.track at h
  split at h
  case h_1 thrown hpc =>
    have hledger : ((c.noteThrown thrown).setPc i (.tracked thrown)).ledger =
        (c.ledger.noteThrown thrown).setPc i (.tracked thrown) :=
      congrArg (fun l => Ledger.setPc l i (.tracked thrown)) (ledger_noteThrown c thrown)
    cases h
    refine ⟨by rw [hledger]; exact single (.track hs hpc), (shape_setPc _ i _).trans ?_⟩
    unfold Controller.noteThrown
    split
    case h_1 => rfl
    case h_2 =>
      split
      case isTrue => exact shape_rememberTerminalStepFailure _ _ _
      case isFalse => rfl
  case h_2 => cases h

/-! ## In flight -/

/-- What the controller takes for settled has completed, so nothing else is in flight. -/
theorem not_inFlight_of_hasInFlightSteps (hmarks : c.ledger.Marks)
    (h : c.hasInFlightSteps = false) (hs : c.steps[i]? = some s) : ¬ s.InFlight := by
  rintro ⟨hactive, hcompleted⟩
  have hempty : c.activeBlockingStepRecords = [] := by
    unfold hasInFlightSteps at h
    rwa [Bool.not_eq_false', List.isEmpty_iff] at h
  have hblocking := filter_eq_nil_iff.mp hempty s (mem_of_getElem? hs)
  refine hcompleted (hmarks.marked i s hs ?_)
  by_contra hmarked
  rw [Ledger.Marked, not_or] at hmarked
  refine hblocking ?_
  rw [hactive, Bool.true_and, Bool.and_eq_true, Bool.not_eq_true', Bool.not_eq_true']
  refine ⟨Bool.eq_false_iff.mpr hmarked.1, ?_⟩
  rw [Bool.eq_false_iff]
  intro hany
  obtain ⟨identity, hid, hmem⟩ := (Option.any_eq_true _ _).mp hany
  exact hmarked.2 ⟨identity, hid, of_decide_eq_true hmem⟩

theorem not_inFlight_of_allTracked (h : c.allTracked = true) (hs : c.steps[i]? = some s) :
    ¬ s.InFlight := by
  rintro ⟨hactive, -⟩
  have htracked := all_eq_true.mp h s (mem_of_getElem? hs)
  rw [hactive] at htracked
  exact Bool.noConfusion htracked

end Controller

end Wdl.Runtime
