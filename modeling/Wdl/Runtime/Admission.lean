import Wdl.Runtime.Layers

/-!
# Which steps are admitted

A controller keeps the layers of its run, whatever is called and in whatever order the steps go
on (`steps_layered`). A step is admitted only while

* no failure and no suspension was recorded, and the dispatcher has not taken note of the end of
  the run;
* all its dependencies have completed;
* no step that may suspend is in flight, and none at all if it may suspend itself.
-/

namespace Wdl.Runtime

open Controller Option List

namespace Controller

open Ledger

variable {c : Controller} {dependencies : List ℕ}

/-- A controller that admits a step is open, and no step is in flight that would be in the way. -/
theorem open_of_assertCanStartStep {origin : Origin} {kind : StepKind}
    (h : c.assertCanStartStep origin kind dependencies = none) :
    c.runReturned = false ∧ c.stepAdmissionClosed = false ∧ c.suspended = false ∧
      c.terminal = none ∧ (kind.isSuspending = true → c.hasInFlightSteps = false) ∧
      (kind.isSuspending = false →
        c.activeBlockingStepRecords.any (blocksFanOut dependencies) = false) := by
  unfold assertCanStartStep at h
  split at h
  case isTrue => cases h
  case isFalse hreturned =>
  split at h
  case isTrue => cases h
  case isFalse hsuspended =>
  split at h
  case isTrue => cases h
  case isFalse =>
  split at h
  case h_1 => cases h
  case h_2 hterminal =>
  rw [Bool.or_eq_true, not_or, Bool.not_eq_true, Bool.not_eq_true] at hreturned
  refine ⟨hreturned.1, hreturned.2, Bool.eq_false_iff.mpr hsuspended, hterminal, ?_, ?_⟩
  · intro hkind
    rw [if_pos hkind] at h
    split at h
    case isTrue => cases h
    case isFalse hflight => exact Bool.eq_false_iff.mpr hflight
  · intro hkind
    rw [if_neg (Bool.eq_false_iff.mp hkind)] at h
    split at h
    case isTrue => cases h
    case isFalse =>
    split at h
    case isTrue => cases h
    case isFalse hblocks => exact Bool.eq_false_iff.mpr hblocks

variable {s : Step}

theorem mem_activeBlockingStepRecords (hm : c.ledger.Marks) {i : ℕ} (hs : c.steps[i]? = some s)
    (hflight : s.InFlight) : s ∈ c.activeBlockingStepRecords := by
  refine mem_filter.mpr ⟨mem_of_getElem? hs, ?_⟩
  have hmarked : ¬ c.ledger.Marked s := fun h => hflight.2 (hm.marked i s hs h)
  rw [Ledger.Marked, not_or] at hmarked
  rw [hflight.1, Bool.true_and, Bool.and_eq_true, Bool.not_eq_true', Bool.not_eq_true']
  refine ⟨Bool.eq_false_iff.mpr hmarked.1, Bool.eq_false_iff.mpr fun hany => hmarked.2 ?_⟩
  obtain ⟨a, ha, hmem⟩ := (any_eq_true _ _).mp hany
  exact ⟨a, ha, of_decide_eq_true hmem⟩

/-- What a record that does not stand in the way of a `step.do` is. -/
theorem of_blocksFanOut (h : blocksFanOut dependencies s = false) :
    s.kind = .doStep ∧ ∃ a, s.identity = some a ∧ a.dependencies = dependencies := by
  rw [blocksFanOut, Bool.not_eq_false'] at h
  obtain ⟨a, ha, hdeps⟩ := (any_eq_true _ _).mp h
  refine ⟨?_, a, identity_of_recordIdentity ha, of_decide_eq_true hdeps⟩
  unfold Step.recordIdentity at ha
  split at ha
  case isTrue hkind => exact hkind
  case isFalse => cases ha

section Start

variable {done : List (List StepIdentity)} {previous current : List StepIdentity}
  (h : c.ledger.Layers done previous current) (hm : c.ledger.Marks) (hh : c.ledger.Honest)
include h hm hh

/-- A step that may start when none is in flight. -/
theorem layered_call_of_idle {s : Step} (hnone : ¬ c.ledger.Excused)
    (hidle : c.hasInFlightSteps = false) (hid : s.identity = some c.nextStepIdentity)
    (hadmitted : s.admitted = true) (hrun : s.pc.running = true) : (c.ledger.call s).Layered :=
  h.startAlone hid hadmitted hrun hm fun _ _ ht =>
    hh.completed hnone ht (not_inFlight_of_hasInFlightSteps hm hidle ht)

/-- A `step.do` that may start. -/
theorem layered_call_of_blocking {s : Step} (hnone : ¬ c.ledger.Excused)
    (hblocking : c.activeBlockingStepRecords.any (blocksFanOut c.nextStepIdentity.dependencies) =
      false) (hid : s.identity = some c.nextStepIdentity) (hadmitted : s.admitted = true)
    (hrun : s.pc.running = true) : (c.ledger.call s).Layered := by
  cases hrecords : c.activeBlockingStepRecords with
  | nil =>
    refine layered_call_of_idle h hm hh hnone ?_ hid hadmitted hrun
    rw [hasInFlightSteps, hrecords]
    rfl
  | cons r rest =>
    have hr : r ∈ c.activeBlockingStepRecords := hrecords ▸ mem_cons_self
    obtain ⟨hkind, a, ha, hdeps⟩ :=
      of_blocksFanOut (Bool.eq_false_iff.mpr (any_eq_false.mp hblocking r hr))
    obtain ⟨hmem, hblock⟩ := mem_filter.mp hr
    rw [Bool.and_eq_true, Bool.and_eq_true, Bool.not_eq_true'] at hblock
    obtain ⟨i, hi⟩ := List.getElem?_of_mem hmem
    refine h.startBeside hid hadmitted hrun hm hi ha ?_ hdeps
    -- a `step.do` that has returned is settled or not active
    rintro (hpc | hpc)
    · have hsettled := h.settled i r hi hkind (ha ▸ some_ne_none a) hpc
      exact absurd (hsettled.symm.trans hblock.1.2) (by decide)
    · rw [Step.active, hpc] at hblock
      exact Bool.noConfusion hblock.1.1

omit h hm hh in
theorem not_excused {origin : Origin} {kind : StepKind} {dependencies : List ℕ}
    (h : c.assertCanStartStep origin kind dependencies = none) : ¬ c.ledger.Excused := by
  obtain ⟨hreturned, -, hsuspended, hterminal, -⟩ := open_of_assertCanStartStep h
  rintro (hs | ht | hr)
  · exact Bool.noConfusion (hsuspended.symm.trans hs)
  · exact ht hterminal
  · exact Bool.noConfusion (hreturned.symm.trans hr)

omit hh in
theorem layered_refuse (reason : Reason) {c' : Controller} (hsteps : c'.steps = c.steps)
    (hentries : Entries c.ledger c'.ledger) : (c'.refuse reason).ledger.Layered := by
  refine ⟨done, previous, current, h.entries hm (hentries.trans (entries_refuse c' reason)) ?_⟩
  exact (congrArg Prod.fst (shape_refuse c' reason)).trans (congrArg List.length hsteps)

theorem layered_callDo (args : DoArguments) : (c.callDo args).ledger.Layered := by
  unfold callDo
  split
  case h_1 => exact layered_refuse h hm _ rfl .refl
  case h_2 =>
    unfold startDo
    split
    case h_1 => exact layered_refuse h hm _ rfl (single .skip)
    case h_2 hmay =>
      exact layered_call_of_blocking h hm hh (not_excused hmay)
        ((open_of_assertCanStartStep hmay).2.2.2.2.2 rfl) rfl rfl rfl

omit hm hh in
theorem layered_addFailed (kind : SuspendingKind) (admitted : Bool) (reason : Reason) :
    (c.addFailed kind admitted reason).ledger.Layered :=
  ⟨done, previous, current, h.startFailed rfl rfl⟩

theorem layered_callSuspending (kind : SuspendingKind) (args : SuspendingArguments) :
    (c.callSuspending kind args).ledger.Layered := by
  unfold callSuspending
  split
  case isTrue => exact layered_addFailed h kind _ _
  case isFalse =>
    split
    case h_1 => exact layered_addFailed h kind _ _
    case h_2 hmay =>
      split
      case h_1 => exact layered_addFailed h kind _ _
      case h_2 =>
        exact layered_call_of_idle h hm hh (not_excused hmay)
          ((open_of_assertCanStartStep hmay).2.2.2.2.1 rfl) rfl rfl rfl

end Start

theorem stepAdmissionClosed_callDo (c : Controller) (args : DoArguments) :
    (c.callDo args).stepAdmissionClosed = c.stepAdmissionClosed := by
  unfold callDo
  split
  case h_1 => exact congrArg Prod.snd (shape_refuse _ _)
  case h_2 =>
    unfold startDo
    split
    case h_1 => exact congrArg Prod.snd (shape_refuse _ _)
    case h_2 => rfl

theorem stepAdmissionClosed_callSuspending (c : Controller) (kind : SuspendingKind)
    (args : SuspendingArguments) :
    (c.callSuspending kind args).stepAdmissionClosed = c.stepAdmissionClosed := by
  unfold callSuspending
  split
  case isTrue => rfl
  case isFalse =>
    split
    case h_1 => rfl
    case h_2 => split <;> rfl

/-! ## Admission -/

/-- What holds when a controller admits a step. -/
structure Admissible (c : Controller) (t : Step) : Prop where
  /-- No failure and no suspension was recorded, and the controller was not closed. -/
  opened : c.terminal = none ∧ c.suspended = false ∧ c.runReturned = false ∧
    c.stepAdmissionClosed = false
  /-- A step that may suspend is alone. -/
  suspending : t.kind.isSuspending = true → ∀ u ∈ c.steps, ¬ u.InFlight
  /-- No step that may suspend is in flight. -/
  beside : ∀ u ∈ c.steps, u.kind.isSuspending = true → ¬ u.InFlight
  /-- The dependencies have completed. -/
  dependencies : ∀ a, t.identity = some a → ∀ n ∈ a.dependencies,
    ∃ u ∈ c.steps, ∃ b, u.admission = some b ∧ b.ordinal = n ∧ u.Completed

section Admission

variable {done : List (List StepIdentity)} {previous current : List StepIdentity}
  (h : c.ledger.Layers done previous current) (hm : c.ledger.Marks)

include h in
theorem completed_of_mem_frontier {n : ℕ} (hn : n ∈ c.dependencyFrontier) :
    ∃ u ∈ c.steps, ∃ b, u.admission = some b ∧ b.ordinal = n ∧ u.Completed := by
  have hcompleted : ∃ b, b.ordinal = n ∧ c.ledger.CompletedAt b := by
    rcases h.frontier with ⟨-, hfront⟩ | ⟨-, hfront⟩
    · obtain ⟨b, hb, heq⟩ := mem_map.mp ((hfront n).mp hn)
      exact ⟨b, heq, h.before b (mem_append_right _ hb)⟩
    · obtain ⟨b, -, heq, hc⟩ := (hfront n).mp hn
      exact ⟨b, heq, hc⟩
  obtain ⟨b, heq, i, u, hu, hid, hc⟩ := hcompleted
  refine ⟨u, mem_of_getElem? hu, b, ?_, heq, hc⟩
  rw [Step.admission, if_pos (h.admitted i u hu (hid ▸ some_ne_none b)), hid]

include h hm in
theorem admissible_of_assertCanStartStep {origin : Origin} {t : Step}
    (hmay : c.assertCanStartStep origin t.kind c.nextStepIdentity.dependencies = none)
    (hid : ∀ a, t.identity = some a → a = c.nextStepIdentity) : Admissible c t := by
  obtain ⟨hreturned, hclosed, hsuspended, hterminal, hsuspending, hdo⟩ :=
    open_of_assertCanStartStep hmay
  have hidle : t.kind.isSuspending = true → ∀ u ∈ c.steps, ¬ u.InFlight := by
    intro hkind u hu
    obtain ⟨i, hi⟩ := List.getElem?_of_mem hu
    exact not_inFlight_of_hasInFlightSteps hm (hsuspending hkind) hi
  refine ⟨⟨hterminal, hsuspended, hreturned, hclosed⟩, hidle, ?_, ?_⟩
  · intro u hu hkind hflight
    cases ht : t.kind.isSuspending with
    | true => exact hidle ht u hu hflight
    | false =>
      -- the record of a step that may suspend stands in the way of every `step.do`
      obtain ⟨i, hi⟩ := List.getElem?_of_mem hu
      have hblocking := any_eq_false.mp (hdo ht) u (mem_activeBlockingStepRecords hm hi hflight)
      rw [(of_blocksFanOut (Bool.eq_false_iff.mpr hblocking)).1] at hkind
      exact Bool.noConfusion hkind
  · intro a ha n hn
    rw [hid a ha, nextStepIdentity, mem_insertionSort] at hn
    exact completed_of_mem_frontier h hn

omit h hm in
theorem getElem?_length_ne {c' : Controller} {t : Step}
    (hlength : c'.steps.length = c.steps.length) : c'.steps[c.steps.length]? ≠ some t := by
  rw [← hlength, List.getElem?_length]
  exact (some_ne_none t).symm

include h hm in
/-- Which steps `step.do` admits. -/
theorem admissible_callDo {args : DoArguments} {t : Step}
    (ht : (c.callDo args).steps[c.steps.length]? = some t) : Admissible c t := by
  unfold callDo at ht
  split at ht
  case h_1 => exact absurd ht (getElem?_length_ne (congrArg Prod.fst (shape_refuse _ _)))
  case h_2 =>
    unfold startDo at ht
    split at ht
    case h_1 => exact absurd ht (getElem?_length_ne (congrArg Prod.fst (shape_refuse _ _)))
    case h_2 hmay =>
      rw [addStep, List.getElem?_concat_length] at ht
      cases ht
      exact admissible_of_assertCanStartStep h hm hmay fun a ha => (Option.some.inj ha).symm

include h hm in
theorem admissible_callSuspending {kind : SuspendingKind} {args : SuspendingArguments} {t : Step}
    (ht : (c.callSuspending kind args).steps[c.steps.length]? = some t)
    (hadmitted : t.admitted = true) : Admissible c t := by
  have hfailed : ∀ admitted reason, (c.addFailed kind admitted reason).steps[c.steps.length]? =
      some t → t.admitted = admitted ∧ t.kind = .suspending kind ∧ t.identity = none := by
    intro admitted reason ht
    rw [addFailed, addStep, List.getElem?_concat_length] at ht
    rw [← Option.some.inj ht]
    exact ⟨rfl, rfl, rfl⟩
  -- a suspending step is asked about without its dependencies
  have hmay' : ∀ origin deps deps', c.assertCanStartStep origin (.suspending kind) deps =
      c.assertCanStartStep origin (.suspending kind) deps' := fun _ _ _ => rfl
  unfold callSuspending at ht
  split at ht
  case isTrue => exact absurd ((hfailed _ _ ht).1.symm.trans hadmitted) (by decide)
  case isFalse =>
    split at ht
    case h_1 => exact absurd ((hfailed _ _ ht).1.symm.trans hadmitted) (by decide)
    case h_2 hmay =>
      rw [hmay' _ _ c.nextStepIdentity.dependencies] at hmay
      split at ht
      case h_1 =>
        obtain ⟨-, hkind, hid⟩ := hfailed _ _ ht
        refine admissible_of_assertCanStartStep h hm (hkind ▸ hmay) fun a ha => ?_
        exact absurd (ha.symm.trans hid) (some_ne_none a)
      case h_2 =>
        rw [startSuspending, addStep, List.getElem?_concat_length] at ht
        cases ht
        exact admissible_of_assertCanStartStep h hm hmay fun a ha => (Option.some.inj ha).symm

end Admission

end Controller

namespace Dispatch

variable {dispatchDeadlineMs : ℕ} {d : Dispatch} {h : Handling}

/-- The controller is closed when the dispatcher waits for the steps. -/
def Shut (d : Dispatch) : Prop :=
  ∀ caught, d.phase = .settling caught → d.controller.stepAdmissionClosed = true

/-- The dispatcher does its part, which does not concern the steps. -/
structure Handled (d d' : Dispatch) : Prop where
  steps : d'.controller.steps = d.controller.steps
  frontier : d'.controller.dependencyFrontier = d.controller.dependencyFrontier
  shut : d.Shut → d'.Shut

theorem handled_respondBefore (d : Dispatch) (outcome : RunOutcome) (t : ℕ) :
    Handled d (d.respondBefore dispatchDeadlineMs outcome t) := by
  unfold respondBefore
  split <;> exact ⟨rfl, rfl, fun _ caught hcaught => by simp [respond] at hcaught⟩

theorem handled_conclude (d : Dispatch) (caught : Reason) (e : Option ErrorRecord) :
    Handled d (d.conclude dispatchDeadlineMs caught e h) := by
  unfold conclude
  split
  case isTrue => exact ⟨rfl, rfl, fun _ caught hcaught => by simp [respond] at hcaught⟩
  case isFalse => split <;> exact handled_respondBefore d _ _

variable {d' : Dispatch}

theorem Handled.of_close (hd : Handled { d with controller := d.controller.closeForRunReturn } d') :
    Handled d d' :=
  ⟨hd.steps, hd.frontier, fun _ => hd.shut fun _ _ => rfl⟩

theorem handled_finish (d : Dispatch) (caught : Reason) :
    Handled d (d.finish dispatchDeadlineMs caught h) := by
  unfold finish
  split
  case h_1 => split <;> exact .of_close (handled_conclude _ _ _)
  case h_2 => exact .of_close (handled_conclude _ _ _)

theorem handled_catchError (d : Dispatch) (caught : Reason) :
    Handled d (d.catchError dispatchDeadlineMs caught h) := by
  unfold catchError
  split
  case isTrue =>
    split
    case isTrue => exact ⟨rfl, rfl, fun _ _ _ => rfl⟩
    case isFalse => exact ⟨rfl, rfl, fun _ _ _ => rfl⟩
  case isFalse => exact handled_finish d caught

theorem handled_complete (d : Dispatch) : Handled d (d.complete dispatchDeadlineMs h) := by
  unfold complete
  split
  case isTrue => exact handled_catchError d _
  case isFalse =>
    split
    case h_1 => exact handled_catchError d _
    case h_2 => exact handled_respondBefore d _ _

theorem handled_runReturned (d : Dispatch) : Handled d (d.runReturned dispatchDeadlineMs h) := by
  unfold Dispatch.runReturned
  split
  case isTrue => exact handled_catchError d _
  case isFalse =>
    split
    case h_1 => exact handled_catchError d _
    case h_2 =>
      split
      case isTrue => exact handled_catchError d _
      case isFalse => exact handled_complete d

theorem handled_afterRun (d : Dispatch) (thrown : Option Reason) :
    Handled d (d.afterRun dispatchDeadlineMs h thrown) := by
  cases thrown with
  | some caught => exact handled_catchError d caught
  | none => exact .of_close (handled_runReturned _)

theorem handled_start (d : Dispatch) (failure : Option Reason) :
    Handled d (d.start dispatchDeadlineMs failure h) := by
  unfold Dispatch.start
  split
  case isTrue => exact handled_catchError d _
  case isFalse =>
    split
    case h_1 => exact handled_catchError d _
    case h_2 =>
      split
      case isTrue => exact handled_catchError d _
      case isFalse => exact ⟨rfl, rfl, nofun⟩

/-- What an event can be to the steps. -/
inductive Effect (d d' : Dispatch) : Prop
  /-- The tenant calls a step. -/
  | callDo (args : Controller.DoArguments) : d.phase.tenantRuns = true →
      d' = d.withController (d.controller.callDo args) → Effect d d'
  | callSuspending (kind : SuspendingKind) (args : Controller.SuspendingArguments) :
      d.phase.tenantRuns = true →
      d' = d.withController (d.controller.callSuspending kind args) → Effect d d'
  /-- A step goes on. -/
  | step (c : Controller) : Ledger.Entries d.controller.ledger c.ledger →
      c.shape = d.controller.shape → d' = d.withController c → Effect d d'
  /-- Anything else. -/
  | handled : Handled d d' → Effect d d'

theorem effect_of_next {e : Event} (hnext : d.next dispatchDeadlineMs e = some d') :
    Effect d d' := by
  cases next_cases hnext with
  | elapse | report => exact .handled ⟨rfl, rfl, id⟩
  | start failure h => exact .handled (handled_start d failure)
  | callDo args hruns => exact .callDo args hruns rfl
  | callSuspending kind args hruns => exact .callSuspending kind args hruns rfl
  | step i answer s c hruns hs hc =>
    have hc := goesOn_resumeStep hs hc
    exact .step c hc.entries hc.shape rfl
  | track i s c hruns hs hc =>
    have hc := goesOn_track hs hc
    exact .step c hc.entries hc.shape rfl
  | runSettled thrown =>
    exact .handled ⟨rfl, rfl, nofun⟩
  | resume h thrown => exact .handled (handled_afterRun d thrown)
  | settled h caught => exact .handled (handled_finish d caught)
  | timeout h =>
    have hfinish := @handled_finish dispatchDeadlineMs h { d with timedOut := true }
      (workflowInfrastructureError .dispatch)
    exact .handled ⟨hfinish.steps, hfinish.frontier, hfinish.shut⟩

/-- The layers of a dispatch, and its controller when it waits for the steps. -/
structure LayerInv (d : Dispatch) : Prop where
  layered : d.controller.ledger.Layered
  shut : d.Shut

theorem LayerInv.next (hd : LayerInv d) (hinv : Inv dispatchDeadlineMs d) (heffect : Effect d d') :
    LayerInv d' := by
  obtain ⟨done, previous, current, hlayers⟩ := hd.layered
  cases heffect with
  | callDo args hphase heq =>
    subst heq
    refine ⟨layered_callDo hlayers hinv.marks hinv.honest args, fun caught hcaught => ?_⟩
    exact (stepAdmissionClosed_callDo d.controller args).trans (hd.shut caught hcaught)
  | callSuspending kind args hphase heq =>
    subst heq
    refine ⟨layered_callSuspending hlayers hinv.marks hinv.honest kind args,
      fun caught hcaught => ?_⟩
    exact (stepAdmissionClosed_callSuspending d.controller kind args).trans
      (hd.shut caught hcaught)
  | step c hentries hshape heq =>
    subst heq
    refine ⟨⟨done, previous, current, ?_⟩, fun caught hcaught => ?_⟩
    · exact hlayers.entries hinv.marks hentries (congrArg Prod.fst hshape)
    · exact (congrArg Prod.snd hshape).trans (hd.shut caught hcaught)
  | handled hh =>
    exact ⟨⟨done, previous, current, hlayers.quiet (.of_steps hh.steps hh.frontier)⟩,
      hh.shut hd.shut⟩

/-- The run lemma of the layers. -/
theorem layerInv_of_run {reportId : String} {es : List Event}
    (hrun : (machine reportId dispatchDeadlineMs).run es = some d) : LayerInv d := by
  refine Machine.run_induction (P := fun _ d => LayerInv d) ?_ ?_ es d hrun
  · refine ⟨⟨[], [], [], ?_⟩, nofun⟩
    refine ⟨rfl, rfl, by simp, fun _ => ⟨rfl, rfl⟩, ?_, .nil, by simp, .nil,
      .inl ⟨by simp, ?_⟩, ?_, ?_⟩
    · rw [nil_append, isChain_cons_cons]
      exact ⟨fun a ha => absurd ha not_mem_nil, .singleton _⟩
    · simp [machine, ledger]
    · simp [machine, ledger]
    · simp [machine, ledger]
  · intro es d e d' hd hinv hnext
    exact hinv.next (inv_of_run hd) (effect_of_next hnext)

end Dispatch

/-! ## The layers of a run -/

theorem Ledger.Layers.layering {l : Ledger} {done : List (List StepIdentity)}
    {previous current : List StepIdentity} (h : l.Layers done previous current) :
    ∃ layers, Layering layers (admissions l.steps) := by
  obtain ⟨rest, hrest⟩ := List.head?_eq_some_iff.mp h.first
  by_cases hcurrent : current = []
  · obtain ⟨rfl, rfl⟩ := h.started hcurrent
    refine ⟨[], ?_, by simp, .singleton _, h.increasing⟩
    rw [h.split, hcurrent]
    rfl
  · have hall : done ++ [previous, current] = [] :: (rest ++ [current]) := by
      rw [show done ++ [previous, current] = (done ++ [previous]) ++ [current] by simp, hrest]
      rfl
    refine ⟨rest ++ [current], ?_, ?_, hall ▸ h.chain, h.increasing⟩
    · have hflatten := congrArg List.flatten hall
      rw [flatten_cons, nil_append, flatten_append] at hflatten
      rw [← hflatten, h.split]
      simp
    · intro L hL
      rcases mem_append.mp hL with hold | hnew
      · exact h.nonempty L (by rwa [hrest])
      · exact mem_singleton.mp hnew ▸ hcurrent

namespace Layering

variable {layers : List (List StepIdentity)} {ids : List StepIdentity} {t : StepIdentity}

theorem dependencies_succ (h : Layering layers ids) {k : ℕ} {P K : List StepIdentity}
    (hP : layers[k]? = some P) (hK : layers[k + 1]? = some K) (ht : t ∈ K) :
    t.dependencies = P.map StepIdentity.ordinal := by
  obtain ⟨hk, rfl⟩ := List.getElem?_eq_some_iff.mp hP
  obtain ⟨hk', rfl⟩ := List.getElem?_eq_some_iff.mp hK
  have hchain := isChain_iff_getElem.mp h.chain (k + 1) (by simpa using hk')
  exact hchain t (by simpa using ht)

theorem dependencies_zero (h : Layering layers ids) {K : List StepIdentity}
    (hK : layers[0]? = some K) (ht : t ∈ K) : t.dependencies = [] := by
  obtain ⟨hk, rfl⟩ := List.getElem?_eq_some_iff.mp hK
  have hchain := isChain_iff_getElem.mp h.chain 0 (by simpa using hk)
  exact hchain t (by simpa using ht)

/-- The ordinals grow from layer to layer. -/
theorem ordinal_lt (h : Layering layers ids) {j k : ℕ} {J K : List StepIdentity} (hjk : j < k)
    (hJ : layers[j]? = some J) (hK : layers[k]? = some K) {s : StepIdentity} (hs : s ∈ J)
    (ht : t ∈ K) : s.ordinal < t.ordinal := by
  have hp := h.increasing
  rw [← h.flatten, pairwise_map, pairwise_flatten] at hp
  obtain ⟨hj, rfl⟩ := List.getElem?_eq_some_iff.mp hJ
  obtain ⟨hk, rfl⟩ := List.getElem?_eq_some_iff.mp hK
  exact pairwise_iff_getElem.mp hp.2 j k hj hk hjk s hs t ht

/-- Two steps of one layer have the same dependencies. Otherwise they differ, and those of the
    later one are the layer before its own. -/
theorem pair (h : Layering layers ids) {j k : ℕ} {J K : List StepIdentity} (hjk : j ≤ k)
    (hJ : layers[j]? = some J) (hK : layers[k]? = some K) {s : StepIdentity} (hs : s ∈ J)
    (ht : t ∈ K) :
    (j = k ∧ s.dependencies = t.dependencies) ∨
      (s.dependencies ≠ t.dependencies ∧ ∃ P, layers[k - 1]? = some P ∧
        t.dependencies = P.map StepIdentity.ordinal) := by
  rcases hjk.eq_or_lt with rfl | hlt
  · cases hJ.symm.trans hK
    refine .inl ⟨rfl, ?_⟩
    cases j with
    | zero => rw [h.dependencies_zero hJ hs, h.dependencies_zero hJ ht]
    | succ j =>
      have hj : j < layers.length := Nat.lt_of_succ_lt (List.getElem?_eq_some_iff.mp hJ).1
      have hP : layers[j]? = some layers[j] := List.getElem?_eq_getElem hj
      rw [h.dependencies_succ hP hJ hs, h.dependencies_succ hP hJ ht]
  · obtain ⟨k, rfl⟩ : ∃ k', k = k' + 1 := ⟨k - 1, by omega⟩
    have hk : k < layers.length := by
      have := (List.getElem?_eq_some_iff.mp hK).1
      omega
    have hP : layers[k]? = some layers[k] := List.getElem?_eq_getElem hk
    have hdeps := h.dependencies_succ hP hK ht
    refine .inr ⟨fun heq => ?_, layers[k], hP, hdeps⟩
    -- a step of the layer before is a dependency of the later step, but too late for the other
    obtain ⟨p, hp⟩ := exists_mem_of_ne_nil _ (h.nonempty _ (getElem_mem hk))
    have hmem : p.ordinal ∈ s.dependencies := by
      rw [heq, hdeps]
      exact mem_map_of_mem hp
    cases j with
    | zero =>
      rw [h.dependencies_zero hJ hs] at hmem
      exact absurd hmem not_mem_nil
    | succ j =>
      have hJ' : layers[j]? = some layers[j] := List.getElem?_eq_getElem (by omega)
      rw [h.dependencies_succ hJ' hJ hs] at hmem
      obtain ⟨q, hq, hqp⟩ := mem_map.mp hmem
      exact absurd hqp (h.ordinal_lt (by omega) hJ' hP hq hp).ne

end Layering

/-- In every run the admitted steps form layers: two of them have the same dependencies, or those
    of the later one are the layer before its own. Whatever happens next, a step is admitted only
    if its dependencies have completed, nothing that may suspend is in flight with it, no failure
    and no suspension was recorded, and the dispatcher has not taken note of the end of the run. -/
theorem steps_layered (reportId : String) (dispatchDeadlineMs : ℕ) (es : List Event) (d : Dispatch)
    (hrun : (Dispatch.machine reportId dispatchDeadlineMs).run es = some d) :
    (∃ layers, Layering layers (admissions d.controller.steps) ∧
      ∀ (j k : ℕ) (J K : List StepIdentity), j ≤ k → layers[j]? = some J → layers[k]? = some K →
        ∀ s ∈ J, ∀ t ∈ K, (j = k ∧ s.dependencies = t.dependencies) ∨
          (s.dependencies ≠ t.dependencies ∧ ∃ P, layers[k - 1]? = some P ∧
            t.dependencies = P.map StepIdentity.ordinal)) ∧
    ∀ (e : Event) (d' : Dispatch) (t : Step), d.next dispatchDeadlineMs e = some d' →
      d'.controller.steps[d.controller.steps.length]? = some t → t.admitted = true →
      Controller.Admissible d.controller t ∧
        (d.phase = .running ∨ ∃ thrown, d.phase = .returned thrown) := by
  have hinv := Dispatch.inv_of_run hrun
  have hlayer := Dispatch.layerInv_of_run hrun
  obtain ⟨done, previous, current, hlayers⟩ := hlayer.layered
  constructor
  · obtain ⟨layers, hlayering⟩ := hlayers.layering
    exact ⟨layers, hlayering, fun j k J K hjk hJ hK s hs t ht => hlayering.pair hjk hJ hK hs ht⟩
  · intro e d' t hnext ht hadmitted
    -- a controller that is open belongs to a run that has not ended
    have hphase : d.phase.tenantRuns = true → Controller.Admissible d.controller t →
        Controller.Admissible d.controller t ∧
          (d.phase = .running ∨ ∃ thrown, d.phase = .returned thrown) := by
      intro hruns hadmissible
      refine ⟨hadmissible, ?_⟩
      cases hp : d.phase with
      | running => exact .inl rfl
      | returned thrown => exact .inr ⟨thrown, rfl⟩
      | settling caught =>
        exact absurd ((hlayer.shut caught hp).symm.trans hadmissible.opened.2.2.2) (by decide)
      | starting | responded =>
        rw [hp] at hruns
        exact Bool.noConfusion hruns
    cases Dispatch.effect_of_next hnext with
    | callDo args hruns heq =>
      subst heq
      exact hphase hruns (admissible_callDo hlayers hinv.marks ht)
    | callSuspending kind args hruns heq =>
      subst heq
      exact hphase hruns (admissible_callSuspending hlayers hinv.marks ht hadmitted)
    | step c hentries hshape heq =>
      subst heq
      exact absurd ht (getElem?_length_ne (congrArg Prod.fst hshape))
    | handled hh => exact absurd ht (getElem?_length_ne (congrArg List.length hh.steps))

/-- Two steps side by side, and a sleep when both have completed. -/
def fanOut : List Event :=
  [.start none (.still 1), .callDo ⟨false, some "a", true⟩, .callDo ⟨false, some "b", true⟩,
    .step 1 (.replay .complete), .step 0 (.replay .complete), .track 0, .track 1,
    .callSuspending .sleep ⟨some "nap", none⟩]

/-- The sleep depends on both. -/
theorem steps_layered_fanOut :
    ∃ d layers, (Dispatch.machine "report" 10).run fanOut = some d ∧
      admissions d.controller.steps = [⟨0, []⟩, ⟨1, []⟩, ⟨2, [0, 1]⟩] ∧
      Layering layers (admissions d.controller.steps) := by
  obtain ⟨layers, hlayering, -⟩ := (steps_layered "report" 10 fanOut _ rfl).1
  exact ⟨_, layers, rfl, by decide, hlayering⟩

/-- The run of the tenant has returned, but the dispatcher has yet to take note of it: what the
    tenant has left running is still admitted a step. -/
theorem step_admitted_after_return :
    ∃ d d', (Dispatch.machine "report" 10).run [.start none (.still 1), .runSettled none] = some d ∧
      d.phase = .returned none ∧ d.next 10 (.callDo ⟨false, some "a", true⟩) = some d' ∧
      admissions d.controller.steps = [] ∧ admissions d'.controller.steps = [⟨0, []⟩] :=
  ⟨_, _, rfl, rfl, rfl, by decide, by decide⟩

end Wdl.Runtime
