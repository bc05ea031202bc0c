import Wdl.Runtime.Dispatch
import Wdl.Runtime.Entries

/-!
# The outcome of a run is honest

Whatever the tenant's workflow does with the promises of its steps, and in whatever order the
backend answers:

* a run is reported as completed only if all its steps have completed;
* it is reported as suspended only if a step was registered as waiting and no failure was
  recorded;
* a failure of the backend, steps that do not settle in time and a deadline that has passed are
  reported as such, and as nothing else.

The dispatcher decides from its controller, so the proof follows the accounts of the ledger: at
the moment of the decision no step is in flight, and then everything that was thrown is recorded.
-/

namespace Wdl.Runtime

open Controller

namespace Dispatch

/-- No step is in flight. -/
def Idle (d : Dispatch) : Prop :=
  ∀ (i : ℕ) (s : Step), d.controller.steps[i]? = some s → ¬ s.InFlight

/-- What a response stands for. -/
structure Justified (dispatchDeadlineMs : ℕ) (d : Dispatch) (r : Response) : Prop where
  completed : r.outcome = .completed →
    ∀ (i : ℕ) (s : Step), d.controller.steps[i]? = some s → s.Completed
  suspended : r.outcome = .suspended → d.controller.terminal = none ∧
    ∃ (i : ℕ) (s : Step), d.controller.steps[i]? = some s ∧ s.waiting = true
  /-- What is no failure of the infrastructure. -/
  sound : r.outcome ≠ .infrastructure →
    d.Idle ∧ d.controller.backendFailed = false ∧ d.timedOut = false ∧
    r.fixedAt < dispatchDeadlineMs

theorem justified_infrastructure {dispatchDeadlineMs : ℕ} {d : Dispatch} {r : Response}
    (h : r.outcome = .infrastructure) : Justified dispatchDeadlineMs d r where
  completed hr := RunOutcome.noConfusion (h.symm.trans hr)
  suspended hr := RunOutcome.noConfusion (h.symm.trans hr)
  sound hr := absurd h hr

/-- What holds between two events. -/
structure Inv (dispatchDeadlineMs : ℕ) (d : Dispatch) : Prop where
  marks : d.controller.ledger.Marks
  honest : d.controller.ledger.Honest
  /-- The run has not returned before the dispatcher has noticed. -/
  opened : ∀ thrown, d.phase = .starting ∨ d.phase = .running ∨ d.phase = .returned thrown →
    d.controller.runReturned = false
  timedOut : d.timedOut = true → ∃ t, d.phase = .responded ⟨.infrastructure, t⟩
  justified : ∀ r, d.phase = .responded r → Justified dispatchDeadlineMs d r

variable {dispatchDeadlineMs : ℕ} {d : Dispatch} {caught : Reason} {h : Handling}

/-! ## Decisions -/

/-- What the dispatcher starts from when it handles an error. -/
structure Ready (d : Dispatch) : Prop where
  marks : d.controller.ledger.Marks
  honest : d.controller.ledger.Honest
  inTime : d.timedOut = false

variable {outcome : RunOutcome} {t : ℕ}

section

variable (hd : d.Ready)

include hd

theorem inv_respond (hjustified : Justified dispatchDeadlineMs d ⟨outcome, t⟩) :
    Inv dispatchDeadlineMs (d.respond outcome t) where
  marks := hd.marks
  honest := hd.honest
  opened thrown hphase := by simp [respond] at hphase
  timedOut ht := absurd (hd.inTime.symm.trans ht) Bool.false_ne_true
  justified r hr := by
    cases hr
    exact ⟨hjustified.completed, hjustified.suspended, hjustified.sound⟩

theorem inv_respondBefore
    (hjustified : t < dispatchDeadlineMs → Justified dispatchDeadlineMs d ⟨outcome, t⟩) :
    Inv dispatchDeadlineMs (d.respondBefore dispatchDeadlineMs outcome t) := by
  unfold respondBefore
  split
  case isTrue => exact inv_respond hd (justified_infrastructure rfl)
  case isFalse ht => exact inv_respond hd (hjustified (not_le.mp ht))

/-- No step is in flight, and the failure of the backend was not recorded: there was none. -/
theorem backendFailed_eq_false (hidle : d.Idle)
    (hrecorded : ¬ d.controller.ledger.InfrastructureRecorded) :
    d.controller.backendFailed = false := by
  by_contra hfailed
  exact hrecorded (hd.honest.infrastructureRecorded hidle (Bool.eq_true_of_not_eq_false hfailed))

/-- The response to what was caught, when no step is in flight. -/
theorem inv_conclude (hidle : d.Idle) {terminalStepError : Option ErrorRecord}
    (hterminal : terminalStepError = none → caught.errorClass ≠ .infrastructure →
      d.controller.terminal = none)
    (hrecorded : caught.errorClass ≠ .infrastructure →
      ¬ d.controller.ledger.InfrastructureRecorded) :
    Inv dispatchDeadlineMs (d.conclude dispatchDeadlineMs caught terminalStepError h) := by
  unfold conclude
  split
  case isTrue => exact inv_respond hd (justified_infrastructure rfl)
  case isFalse hclass =>
    have hbackend := backendFailed_eq_false hd hidle (hrecorded hclass)
    split
    case isTrue hsuspension =>
      obtain ⟨hnone, hsuspended, -⟩ := hsuspension
      refine inv_respondBefore hd fun ht => ⟨nofun, fun _ => ?_,
        fun _ => ⟨hidle, hbackend, hd.inTime, ht⟩⟩
      exact ⟨hterminal hnone hclass, hd.honest.waiting hsuspended⟩
    case isFalse =>
      exact inv_respondBefore hd fun ht => ⟨fun hr => RunOutcome.noConfusion hr,
        fun hr => RunOutcome.noConfusion hr, fun _ => ⟨hidle, hbackend, hd.inTime, ht⟩⟩

theorem Ready.close :
    { d with controller := d.controller.closeForRunReturn }.Ready where
  marks := hd.marks.close
  honest := hd.honest.close
  inTime := hd.inTime

theorem Ready.closeAdmission :
    { d with controller := d.controller.closeStepAdmission }.Ready where
  marks := hd.marks
  honest := hd.honest
  inTime := hd.inTime

/-- The end of the `catch` block, when no step is in flight. -/
theorem inv_finish (hidle : d.Idle) :
    Inv dispatchDeadlineMs (d.finish dispatchDeadlineMs caught h) := by
  have hclosed := hd.close
  unfold finish
  split
  case h_1 failure error hterminal =>
    have hrecorded : failure.errorClass ≠ .infrastructure →
        ¬ d.controller.ledger.InfrastructureRecorded := by
      rintro hclass ⟨t, ht, hinfrastructure⟩
      rw [show d.controller.ledger.terminal = d.controller.terminal from rfl, hterminal,
        Option.some.injEq] at ht
      rw [← ht] at hinfrastructure
      exact hclass hinfrastructure
    split
    case isTrue =>
      exact inv_conclude hclosed hidle (fun hnone => absurd hnone (Option.some_ne_none _)) hrecorded
    case isFalse hneither =>
      -- a failure of the infrastructure was caught after an ordinary one was recorded
      rw [not_or, not_not] at hneither
      exact inv_conclude hclosed hidle (fun _ hclass => absurd hneither.2 hclass)
        fun hclass => absurd hneither.2 hclass
  case h_2 hterminal =>
    refine inv_conclude hclosed hidle (fun _ _ => hterminal) ?_
    rintro - ⟨t, ht, -⟩
    exact Option.some_ne_none t (ht.symm.trans hterminal)

/-- The `catch` block. -/
theorem inv_catchError :
    Inv dispatchDeadlineMs (d.catchError dispatchDeadlineMs caught h) := by
  unfold catchError
  split
  case isTrue =>
    have hready : { d with
        controller :=
          if letsStepsGoOn d.controller caught then d.controller.closeStepAdmission
          else d.controller.closeForRunReturn }.Ready := by
      split
      case isTrue => exact hd.closeAdmission
      case isFalse => exact hd.close
    exact ⟨hready.marks, hready.honest, by simp, fun ht => absurd ht (by simp [hd.inTime]), by simp⟩
  case isFalse hflight =>
    refine inv_finish hd fun i s hs => ?_
    exact not_inFlight_of_hasInFlightSteps hd.marks (Bool.eq_false_iff.mpr hflight) hs

theorem inv_complete (hidle : d.Idle) (hterminal : d.controller.terminal = none)
    (hcompleted : ∀ (i : ℕ) (s : Step), d.controller.steps[i]? = some s → s.Completed) :
    Inv dispatchDeadlineMs (d.complete dispatchDeadlineMs h) := by
  have hbackend : d.controller.backendFailed = false := by
    refine backendFailed_eq_false hd hidle ?_
    rintro ⟨t, ht, -⟩
    exact Option.some_ne_none t (ht.symm.trans hterminal)
  unfold complete
  split
  case isTrue => exact inv_catchError hd
  case isFalse =>
    split
    case h_1 => exact inv_catchError hd
    case h_2 =>
      exact inv_respondBefore hd fun ht =>
        ⟨fun _ => hcompleted, fun hr => RunOutcome.noConfusion hr,
        fun _ => ⟨hidle, hbackend, hd.inTime, ht⟩⟩

theorem inv_afterRun (hopen : d.controller.runReturned = false)
    (thrown : Option Reason) : Inv dispatchDeadlineMs (d.afterRun dispatchDeadlineMs h thrown) := by
  cases thrown with
  | some caught => exact inv_catchError hd
  | none =>
    have hclosed := hd.close
    rw [afterRun]
    unfold runReturned
    split
    case isTrue => exact inv_catchError hclosed
    case isFalse hflight =>
      have hidle : d.Idle := fun i s hs => not_inFlight_of_hasInFlightSteps hd.marks
        (Bool.eq_false_iff.mpr hflight) hs
      split
      case h_1 => exact inv_catchError hclosed
      case h_2 hterminal =>
        split
        case isTrue => exact inv_catchError hclosed
        case isFalse hsuspended =>
          refine inv_complete hclosed hidle hterminal fun i s hs => ?_
          -- before the run returned nobody was accountable for a step that did not complete
          have hnone : ¬ d.controller.ledger.Excused := by
            rintro (hexcuse | hexcuse | hexcuse)
            · exact hsuspended hexcuse
            · exact hexcuse hterminal
            · exact Bool.false_ne_true (hopen.symm.trans hexcuse)
          exact hd.honest.completed hnone hs (hidle i s hs)

end

theorem phase_conclude (d : Dispatch) (hcaught : caught.errorClass = .infrastructure)
    (terminalStepError : Option ErrorRecord) :
    (d.conclude dispatchDeadlineMs caught terminalStepError h).phase =
      .responded ⟨.infrastructure, h.finishedAt⟩ := by
  rw [conclude, if_pos hcaught]
  rfl

/-- A failure of the infrastructure that was caught is the outcome, whatever was recorded. -/
theorem phase_finish (d : Dispatch) (hcaught : caught.errorClass = .infrastructure) :
    (d.finish dispatchDeadlineMs caught h).phase = .responded ⟨.infrastructure, h.finishedAt⟩ := by
  have hjudge : (judge d.controller dispatchDeadlineMs caught h.caughtAt).errorClass =
      .infrastructure := by
    unfold judge
    split
    case isTrue => rfl
    case isFalse =>
      split
      case isTrue => rfl
      case isFalse => exact hcaught
  unfold finish
  split
  case h_1 failure error _ =>
    split
    case isTrue hcond => exact phase_conclude _ (hcond.resolve_right fun hne => hne hjudge) _
    case isFalse => exact phase_conclude _ hjudge _
  case h_2 => exact phase_conclude _ hjudge _

theorem ledger_finish (d : Dispatch) :
    (d.finish dispatchDeadlineMs caught h).controller = d.controller.closeForRunReturn := by
  have hrespond : ∀ (d : Dispatch) outcome t,
      (d.respondBefore dispatchDeadlineMs outcome t).controller = d.controller := by
    intro d outcome t
    unfold respondBefore
    split <;> rfl
  have hconclude : ∀ (d : Dispatch) caught e,
      (d.conclude dispatchDeadlineMs caught e h).controller = d.controller := by
    intro d caught e
    unfold conclude
    split
    case isTrue => rfl
    case isFalse => split <;> exact hrespond _ _ _
  unfold finish
  split
  case h_1 => split <;> exact hconclude _ _ _
  case h_2 => exact hconclude _ _ _

theorem inv_timeout (hd : d.Ready) :
    Inv dispatchDeadlineMs ({ d with timedOut := true }.finish dispatchDeadlineMs
      (workflowInfrastructureError .dispatch) h) := by
  have hphase := @phase_finish dispatchDeadlineMs (workflowInfrastructureError .dispatch) h
    { d with timedOut := true } rfl
  have hcontroller := @ledger_finish dispatchDeadlineMs (workflowInfrastructureError .dispatch) h
    { d with timedOut := true }
  refine ⟨?_, ?_, ?_, fun _ => ⟨_, hphase⟩, fun r hr => ?_⟩
  · rw [hcontroller]
    exact hd.marks.close
  · rw [hcontroller]
    exact hd.honest.close
  · rw [hphase]
    simp
  · rw [hphase] at hr
    exact justified_infrastructure (congrArg Response.outcome (Phase.responded.inj hr)).symm

/-! ## Events -/

theorem Inv.ready (hd : Inv dispatchDeadlineMs d) (hphase : ∀ r, d.phase ≠ .responded r) :
    d.Ready := by
  refine ⟨hd.marks, hd.honest, ?_⟩
  by_contra ht
  obtain ⟨t, hresponded⟩ := hd.timedOut (Bool.eq_true_of_not_eq_false ht)
  exact hphase _ hresponded

/-- What happens to the controller keeps the accounts, and the dispatcher is where it was. -/
theorem Inv.withController (hd : Inv dispatchDeadlineMs d) {c : Controller}
    (hphase : d.phase.tenantRuns = true) (hc : Ledger.Entries d.controller.ledger c.ledger) :
    Inv dispatchDeadlineMs (d.withController c) := by
  have hresponded : ∀ r, d.phase ≠ .responded r := by
    intro r hr
    rw [hr] at hphase
    exact Bool.noConfusion hphase
  refine ⟨hc.keeps (fun _ _ hentry => hentry.marks) hd.marks,
    hc.keeps (fun _ _ hentry => hentry.honest) hd.honest, fun thrown ht => ?_, hd.timedOut,
    fun r hr => absurd hr (hresponded r)⟩
  exact hc.keeps (P := fun l => l.runReturned = false)
    (fun _ _ hentry hl => hentry.runReturned.trans hl) (hd.opened thrown ht)

theorem Inv.start (hd : Inv dispatchDeadlineMs d) (hphase : d.phase = .starting)
    (failure : Option Reason) : Inv dispatchDeadlineMs (d.start dispatchDeadlineMs failure h) := by
  have hready := hd.ready fun r hr => Phase.noConfusion (hphase.symm.trans hr)
  unfold Dispatch.start
  split
  case isTrue => exact inv_catchError hready
  case isFalse =>
    split
    case h_1 => exact inv_catchError hready
    case h_2 =>
      split
      case isTrue => exact inv_catchError hready
      case isFalse =>
        refine ⟨hd.marks, hd.honest, fun thrown _ => hd.opened none (.inl hphase), fun ht => ?_,
          nofun⟩
        exact absurd (hready.inTime.symm.trans ht) Bool.false_ne_true

theorem Inv.next (hd : Inv dispatchDeadlineMs d) {e : Event} {d' : Dispatch}
    (hnext : d.next dispatchDeadlineMs e = some d') : Inv dispatchDeadlineMs d' := by
  cases next_cases hnext with
  | elapse t hphase =>
    refine ⟨hd.marks, hd.honest, hd.opened, hd.timedOut, fun r hr => ?_⟩
    rw [show d.phase = .responded r from hr] at hphase
    exact absurd hphase (by simp [Phase.tenantRuns])
  | report hruns => exact hd.withController hruns .refl
  | start failure h hphase => exact hd.start hphase failure
  | callDo args hruns =>
    exact hd.withController hruns (entries_callDo d.controller args)
  | callSuspending kind args hruns =>
    exact hd.withController hruns (entries_callSuspending d.controller kind args)
  | step i answer s c hruns hs hc =>
    exact hd.withController hruns (goesOn_resumeStep hs hc).entries
  | track i s c hruns hs hc => exact hd.withController hruns (goesOn_track hs hc).entries
  | runSettled thrown hphase =>
    have hready := hd.ready fun r hr => Phase.noConfusion (hphase.symm.trans hr)
    refine ⟨hd.marks, hd.honest, fun _ _ => hd.opened none (.inr (.inl hphase)), fun ht => ?_,
      nofun⟩
    exact absurd (hready.inTime.symm.trans ht) Bool.false_ne_true
  | resume h thrown hphase =>
    have hready := hd.ready fun r hr => Phase.noConfusion (hphase.symm.trans hr)
    exact inv_afterRun hready (hd.opened thrown (.inr (.inr hphase))) thrown
  | settled h caught hphase htracked =>
    have hready := hd.ready fun r hr => Phase.noConfusion (hphase.symm.trans hr)
    exact inv_finish hready fun i s hs => not_inFlight_of_allTracked htracked hs
  | timeout h caught hphase =>
    exact inv_timeout (hd.ready fun r hr => Phase.noConfusion (hphase.symm.trans hr))

/-- The run lemma. -/
theorem inv_of_run {reportId : String} {es : List Event}
    (hrun : (machine reportId dispatchDeadlineMs).run es = some d) : Inv dispatchDeadlineMs d := by
  refine Machine.run_induction (P := fun _ d => Inv dispatchDeadlineMs d) ?_ ?_ es d hrun
  · refine ⟨⟨?_, ?_, ?_, ?_⟩, ⟨?_, ?_, ?_, ?_⟩, fun _ _ => rfl, ?_, ?_⟩ <;>
      simp [machine, ledger]
  · intro es d e d' _ hd hnext
    exact hd.next hnext

end Dispatch

/-- Whatever the tenant and the backend do, the response is what has happened. After it nothing
    more can fail: unless it is a failure of the infrastructure, no step is in flight. -/
theorem run_outcome_honest (reportId : String) (dispatchDeadlineMs : ℕ) (es : List Event)
    (d : Dispatch) (r : Response)
    (hrun : (Dispatch.machine reportId dispatchDeadlineMs).run es = some d)
    (hr : d.phase = .responded r) :
    (r.outcome = .completed →
      (∀ s ∈ d.controller.steps, s.admitted = true → s.Completed) ∧
        ∀ s ∈ d.controller.steps, ¬ s.InFlight) ∧
    (r.outcome = .suspended →
      (∃ s ∈ d.controller.steps, s.waiting = true) ∧ d.controller.terminal = none ∧
        ∀ s ∈ d.controller.steps, ¬ s.InFlight) ∧
    (d.controller.backendFailed = true ∨ d.timedOut = true ∨ dispatchDeadlineMs ≤ r.fixedAt →
      r.outcome = .infrastructure) ∧
    (r.outcome ≠ .infrastructure → ∀ s ∈ d.controller.steps, ¬ s.InFlight) := by
  have hjustified := (Dispatch.inv_of_run hrun).justified r hr
  have hidle : r.outcome ≠ .infrastructure → ∀ s ∈ d.controller.steps, ¬ s.InFlight := by
    intro hne s hs
    obtain ⟨i, hi⟩ := List.mem_iff_getElem?.mp hs
    exact (hjustified.sound hne).1 i s hi
  refine ⟨fun ho => ⟨fun s hs _ => ?_, hidle (by simp [ho])⟩,
    fun ho => ⟨?_, (hjustified.suspended ho).1, hidle (by simp [ho])⟩, fun hcause => ?_, hidle⟩
  · obtain ⟨i, hi⟩ := List.mem_iff_getElem?.mp hs
    exact hjustified.completed ho i s hi
  · obtain ⟨-, i, s, hs, hwaiting⟩ := hjustified.suspended ho
    exact ⟨s, List.mem_of_getElem? hs, hwaiting⟩
  · by_contra hne
    obtain ⟨-, hbackend, hinTime, hfixed⟩ := hjustified.sound hne
    rcases hcause with hfailed | htimedOut | hdeadline
    · exact Bool.false_ne_true (hbackend.symm.trans hfailed)
    · exact Bool.false_ne_true (hinTime.symm.trans htimedOut)
    · exact absurd hfixed (not_lt.mpr hdeadline)

/-- A clock that stands still. -/
def Handling.still (t : ℕ) : Handling := ⟨t, t, t, t, none, none⟩

/-- A workflow that swallows the failure of the backend and returns. -/
def swallowed : List Event :=
  [.start none (.still 1), .callDo ⟨false, some "charge", true⟩, .step 0 (.replay .miss),
    .step 0 (.backend (.error .infrastructure) none), .track 0, .runSettled none,
    .resume (.still 2)]

/-- It is reported as a failure of the infrastructure all the same. -/
theorem run_outcome_honest_swallowed :
    ∃ d r, (Dispatch.machine "report" 10).run swallowed = some d ∧ d.phase = .responded r ∧
      r.outcome = .infrastructure := by
  refine ⟨_, ⟨.infrastructure, 2⟩, rfl, rfl, ?_⟩
  exact (run_outcome_honest "report" 10 swallowed _ ⟨.infrastructure, 2⟩ rfl rfl).2.2.1 (.inl rfl)

end Wdl.Runtime
