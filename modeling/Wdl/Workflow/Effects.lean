import Wdl.Workflow.Interface

/-!
# What the scripts can do

`Effect` lists everything that a script can do to the keys of the instance, one
constructor for each kind of change, with the conditions under which it happens
and the reply that announces it. A script that does not announce an effect has
changed nothing (`Effect.idle`), with one exception: a due token that is dropped is
not announced (`Effect.dueDropped`).

`Script.exec_effect` derives it from the scripts, so that a property of the keys is
proved by cases on the effect.
-/

namespace Wdl.Workflow

/-- The reply says that the script took effect. -/
def Script.effective : (c : Script) → c.Reply → Prop
  | .claimRun .., x => x = true
  | .releaseRun .., x => x = ReleaseReply.released
  | .clearSuspendedRun .., x => x = true
  | .requeueExpiredRun .., x => x = true
  | .moveDueToken .., x => x = true
  | .removeReadyTokenIfTerminal .., x => x = true
  | .removeReadyTokenIfStateMissing, x => x = true
  | .pruneReadyShard, x => x = true
  | .commitStepSuccess .., x => x = StepCode.ok
  | .commitStepError .., x => x = StepCode.ok
  | .commitStepRecord .., x => x = StepCode.ok
  | .restoreWaitingDue .., x => x = StepCode.ok
  | .sendEvent .., x => x = SendReply.ok
  | .cleanupStaleEventIndex .., x => x = StepCode.ok
  | .createInstance .., x => x = true
  | .finalizeCreateInstance .., x => x = true
  | .cleanupPendingCreate .., x => x = true
  | .pause .., x => x = true
  | .resume .., x => x = true
  | .terminate .., x => x = true
  | .restart .., x => x = RestartReply.restarted
  | .commitRuntimeTerminal .., x => x ≠ TerminalReply.fenced
  | .removeRetentionToken .., x => x = true
  | .cleanupRetention .., x => x = true
  | _, _ => False

/-- The changes of the keys, by script and reply. -/
inductive Effect (cfg : Service) (i : Instance) : (c : Script) → c.Reply → Instance → Prop
  /-- Nothing is changed. -/
  | idle {c : Script} {x : c.Reply} (h : ¬ c.effective x) : Effect cfg i c x i
  | claimed {status : Status} {g t e n c : ℕ} (s : State) (hs : i.state = some s)
      (hst : s.status = status) (hg : s.generation = g) (hc : s.createdAtMs = c)
      (hfree : s.runToken = none ∨ s.runLeaseExpiresAtMs.getD 0 ≤ n) :
      Effect cfg i (.claimRun status g t e n c) true (i.setState { s with
        status := .running, runToken := some t, runLeaseExpiresAtMs := some e })
  | released {g t : ℕ} {status : Status} (s : State) (hs : i.state = some s)
      (hg : s.generation = g) (ht : s.runToken = some t) (hst : s.status = .running) :
      Effect cfg i (.releaseRun g t status) ReleaseReply.released
        (i.setState { s.dropRun with status := status })
  /-- The claim is dropped, and the ready token is kept for a buffered event. -/
  | clearedReady {g t : ℕ} (s : State) (pre : List Char) (hs : i.state = some s)
      (hst : s.status = .waiting) (hg : s.generation = g) (ht : s.runToken = some t)
      (hpre : s.waitingEventIndexPrefix = some pre) (hev : indexRange i.eventIndex pre 1 ≠ []) :
      Effect cfg i (.clearSuspendedRun g t) true (i.setState s.dropRun)
  | cleared {g t : ℕ} (s : State) (hs : i.state = some s) (hst : s.status = .waiting)
      (hg : s.generation = g) (ht : s.runToken = some t)
      (hev : ∀ pre, s.waitingEventIndexPrefix = some pre → indexRange i.eventIndex pre 1 = []) :
      Effect cfg i (.clearSuspendedRun g t) true { i.setState s.dropRun with ready := false }
  | requeued {n g c : ℕ} (s : State) (hs : i.state = some s) (hst : s.status = .running)
      (hlease : s.runLeaseExpiresAtMs.getD 0 ≤ n) :
      Effect cfg i (.requeueExpiredRun n g c) true
        (i.setState { s.dropRun with status := .queued }).addReady
  /-- The due token of an instance that is neither queued nor waiting is dropped. -/
  | dueDropped {n : ℕ} (hst : ∀ s, i.state = some s → s.status ≠ .queued ∧ s.status ≠ .waiting) :
      Effect cfg i (.moveDueToken n) false { i with due := none }
  | dueMovedFree {n : ℕ} (s : State) (hs : i.state = some s)
      (hst : s.status = .queued ∨ s.status = .waiting) (ht : s.runToken = none) :
      Effect cfg i (.moveDueToken n) true { i.addReady with due := none }
  | dueMoved {n : ℕ} (s : State) (hs : i.state = some s)
      (hst : s.status = .queued ∨ s.status = .waiting) :
      Effect cfg i (.moveDueToken n) true { (i.setState s.dropRun).addReady with due := none }
  | terminalUnready {g : ℕ} (s : State) (hs : i.state = some s) (hst : s.status.terminal = true) :
      Effect cfg i (.removeReadyTokenIfTerminal g) true { i with ready := false }
  | missingUnready (hs : i.state = none) :
      Effect cfg i .removeReadyTokenIfStateMissing true { i with ready := false }
  | pruned (hr : i.ready = false) : Effect cfg i .pruneReadyShard true { i with active := false }
  | stepSucceeded {g t n o : ℕ} {ref : Option PayloadRef} {json : Payload}
      {record : JsonText StepRecord} {summary : ℕ} (s : State) (hs : claimFence g t n i = .ok s)
      (hle : nextPayloadBytes i s o ref (some json) record summary ≤ cfg.payloadLimit) :
      Effect cfg i (.commitStepSuccess g t n o ref json record summary) StepCode.ok
        (writeStep i s o ref (some json) record summary
          (nextPayloadBytes i s o ref (some json) record summary))
  | stepFailed {g t n o : ℕ} {ref : Option PayloadRef} {json : Payload}
      {record : JsonText StepRecord} {summary : ℕ} (s : State) (hs : claimFence g t n i = .ok s)
      (hle : nextPayloadBytes i s o ref (some json) record summary ≤ cfg.payloadLimit) :
      Effect cfg i (.commitStepError g t n o ref json record summary none) StepCode.ok
        (writeStep i s o ref (some json) record summary
          (nextPayloadBytes i s o ref (some json) record summary))
  | stepRetried {g t n o : ℕ} {ref : Option PayloadRef} {json : Payload}
      {record : JsonText StepRecord} {summary due : ℕ} (s : State) (hs : claimFence g t n i = .ok s)
      (hle : nextPayloadBytes i s o ref (some json) record summary ≤ cfg.payloadLimit) :
      Effect cfg i (.commitStepError g t n o ref json record summary (some due)) StepCode.ok
        { writeStep i { s with status := .waiting } o ref (some json) record summary
            (nextPayloadBytes i s o ref (some json) record summary) with
          due := some due, ready := false }
  | recorded {g t n o : ℕ} {a : StepRecordCommit} (s : State) (hs : claimFence g t n i = .ok s)
      (hle : recordPayloadBytes i s o a ≤ cfg.payloadLimit) :
      Effect cfg i (.commitStepRecord g t n o a) StepCode.ok (writeRecord i s o a)
  | restored {g t n due : ℕ} (s : State) (hs : claimFence g t n i = .ok s)
      (hst : s.status = .running) :
      Effect cfg i (.restoreWaitingDue g t n due) StepCode.ok
        { i.setState { s with status := .waiting } with due := some due, ready := false }
  | eventStored {payload : Payload} {type : EventType} {pre : List Char} {n g c : ℕ} (s : State)
      (hs : i.state = some s) (hst : s.status.terminal = false) (hg : s.generation = g)
      (hc : s.createdAtMs = c) (hle : eventPayloadBytes cfg s payload type n ≤ cfg.payloadLimit) :
      Effect cfg i (.sendEvent payload type pre n g c) SendReply.ok
        (storeEvent cfg i s payload type pre n)
  | staleDropped {g c t n : ℕ} {observations : List StaleEventIndexObservation} (s : State)
      (hs : claimFence g t n i = .ok s) :
      Effect cfg i (.cleanupStaleEventIndex g c t n observations) StepCode.ok
        { i with eventIndex := dropStale i observations }
  | created {a : CreateArgs} (hs : i.state = none) :
      Effect cfg i (.createInstance a) true { i with
        state := some a.state
        payloads := i.payloads.insert .params a.params
        byWorker := true
        byVersion := insert a.frozenVersion i.byVersion }
  | finalized {t n : ℕ} (s : State) (hs : pendingUnder i t = some s) :
      Effect cfg i (.finalizeCreateInstance t n) true { (i.setState { s with
        status := .queued, pendingCreateToken := none, pendingExpiresAtMs := none }).addReady with
          byWorkflow := some n }
  | pendingRemoved {t v : ℕ} (s : State) (hs : pendingUnder i t = some s) :
      Effect cfg i (.cleanupPendingCreate t v) true { i.deleteKeys with
        byWorker := false, byVersion := i.byVersion.erase v }
  | paused {g g' c : ℕ} (s : State) (hs : incarnation g c i = some s)
      (hst : s.status.terminal = false) :
      Effect cfg i (.pause g g' c) true
        { i.setState { s.dropClaim with status := .paused, generation := g' } with
          ready := false, due := none }
  | resumed {g g' c : ℕ} (s : State) (hs : incarnation g c i = some s)
      (hst : s.status = .paused) :
      Effect cfg i (.resume g g' c) true
        (i.setState { s.dropClaim with status := .queued, generation := g' }).addReady
  | terminated {g g' c e v : ℕ} (s : State) (hs : incarnation g c i = some s)
      (hst : s.status.terminal = false) :
      Effect cfg i (.terminate g g' c e v) true
        { i.setState { s.dropClaim with
            status := .terminated, generation := g', retentionExpiresAtMs := some e } with
          ready := false, due := none, byVersion := i.byVersion.erase v, retention := some e }
  | restarted {m g g' c v v' n : ℕ} {params : Payload} (s : State)
      (hs : incarnation g c i = some s) :
      Effect cfg i (.restart m g g' c v v' n params) RestartReply.restarted
        (Workflow.restarted i s g' v v' n params)
  /-- The waiting instance of an expired claim is made ready. -/
  | terminalRequeued {g t : ℕ} {outcome : RunOutcome} {result : Payload} {n e e' : ℕ} (s : State)
      (hs : i.state = some s) (hst : s.status = .waiting) :
      Effect cfg i (.commitRuntimeTerminal g t outcome result n e e') TerminalReply.requeued
        i.addReady
  | terminalOverflow {g t : ℕ} {outcome : RunOutcome} {result : Payload} {n e e' : ℕ} (s : State)
      (hs : i.state = some s) (ht : s.runToken = some t)
      (hst : s.status = .running ∨ s.status = .waiting)
      (hlt : cfg.payloadLimit < s.payloadBytes + result.bytes) :
      Effect cfg i (.commitRuntimeTerminal g t outcome result n e e') TerminalReply.overflow
        (endInstance i s .failed e')
  | terminalCommitted {g t : ℕ} {outcome : RunOutcome} {result : Payload} {n e e' : ℕ} (s : State)
      (hs : i.state = some s) (ht : s.runToken = some t)
      (hst : s.status = .running ∨ s.status = .waiting)
      (hle : s.payloadBytes + result.bytes ≤ cfg.payloadLimit) :
      Effect cfg i (.commitRuntimeTerminal g t outcome result n e e') TerminalReply.committed
        (storeResult i s outcome result e)
  | tokenRemoved {score : ℕ} {seen : Option (Status × ℕ × ℕ)} (hr : i.retention = some score)
      (hseen : observed i = seen) :
      Effect cfg i (.removeRetentionToken score seen) true { i with retention := none }
  | expired {g c n v : ℕ} (s : State) (e : ℕ) (hs : incarnation g c i = some s)
      (hst : s.status.terminal = true) (he : s.retentionExpiresAtMs = some e) (hle : e ≤ n) :
      Effect cfg i (.cleanupRetention g c n v) true { i.deleteKeys with
        byWorker := false, byVersion := i.byVersion.erase v, retention := none, byWorkflow := none }

/-- What a script answers and leaves is one of its effects. -/
def Script.HasEffect (cfg : Service) (i : Instance) (c : Script) (y : c.Reply × Instance) : Prop :=
  Effect cfg i c y.1 y.2

/-! ## The effect of each script -/

variable {cfg : Service} {i i' : Instance} {status : Status} {g g' t e e' n o v v' c : ℕ}

theorem claimRun_effect :
    Script.HasEffect cfg i (.claimRun status g t e n c) (claimRun status g t e n c i) := by
  unfold claimRun
  split
  · exact .idle nofun
  rename_i s hs
  split
  · exact .idle nofun
  rename_i hst
  split
  · exact .idle nofun
  rename_i hgen
  push Not at hst hgen
  split
  · exact .idle nofun
  rename_i hfree
  refine .claimed s hs hst hgen.1 hgen.2 ?_
  by_cases ht : s.runToken = none
  · exact .inl ht
  · exact .inr (not_lt.1 fun hlt => hfree ⟨Option.isSome_iff_ne_none.2 ht, hlt⟩)

theorem releaseRun_effect :
    Script.HasEffect cfg i (.releaseRun g t status) (releaseRun g t status i) := by
  unfold releaseRun
  split
  · exact .idle nofun
  rename_i s hs
  split
  · exact .idle nofun
  rename_i hfence
  push Not at hfence
  split
  · exact .idle nofun
  split
  · exact .idle nofun
  rename_i hrun
  exact .released s hs hfence.1 hfence.2 (not_not.1 hrun)

theorem clearSuspendedRun_effect :
    Script.HasEffect cfg i (.clearSuspendedRun g t) (clearSuspendedRun g t i) := by
  unfold clearSuspendedRun
  split
  · exact .idle nofun
  rename_i s hs
  split
  · exact .idle nofun
  rename_i hfence
  push Not at hfence
  obtain ⟨hst, hg, ht⟩ := hfence
  split
  · rename_i pre hpre
    split_ifs with hev
    · exact .clearedReady s pre hs hst hg ht hpre hev
    · refine .cleared s hs hst hg ht fun pre' hpre' => ?_
      cases hpre.symm.trans hpre'
      exact not_not.1 hev
  · rename_i hpre
    exact .cleared s hs hst hg ht fun pre hpre' => nomatch hpre.symm.trans hpre'

theorem requeueExpiredRun_effect :
    Script.HasEffect cfg i (.requeueExpiredRun n g c) (requeueExpiredRun n g c i) := by
  unfold requeueExpiredRun
  split
  · exact .idle nofun
  rename_i s hs
  split
  · exact .idle nofun
  rename_i hrun
  split
  · exact .idle nofun
  rename_i hlease
  split
  · exact .idle nofun
  · exact .requeued s hs (not_not.1 hrun) (not_lt.1 hlease)

theorem moveDueToken_effect :
    Script.HasEffect cfg i (.moveDueToken n) (moveDueToken n i) := by
  unfold moveDueToken
  split
  · exact .idle nofun
  split
  · exact .idle nofun
  split
  · rename_i hs
    exact .dueDropped fun s h => nomatch hs.symm.trans h
  rename_i s hs
  split
  · rename_i hst
    refine .dueDropped fun s' h => ?_
    cases hs.symm.trans h
    exact hst
  rename_i hst
  have hact : s.status = .queued ∨ s.status = .waiting := by
    by_contra h
    exact hst (not_or.1 h)
  split
  · split
    · exact .idle nofun
    · exact .dueMoved s hs hact
  · rename_i htok
    exact .dueMovedFree s hs hact (Option.not_isSome_iff_eq_none.1 htok)

theorem removeReadyTokenIfTerminal_effect :
    Script.HasEffect cfg i (.removeReadyTokenIfTerminal g) (removeReadyTokenIfTerminal g i) := by
  unfold removeReadyTokenIfTerminal
  split
  · exact .idle nofun
  rename_i s hs
  split
  · exact .idle nofun
  split_ifs with hterm
  · exact .terminalUnready s hs hterm
  · exact .idle nofun

theorem removeReadyTokenIfStateMissing_effect :
    Script.HasEffect cfg i .removeReadyTokenIfStateMissing (removeReadyTokenIfStateMissing i) := by
  unfold removeReadyTokenIfStateMissing
  split
  · exact .idle nofun
  · rename_i hs
    exact .missingUnready hs

theorem pruneReadyShard_effect : Script.HasEffect cfg i .pruneReadyShard (pruneReadyShard i) := by
  unfold pruneReadyShard
  split_ifs with h
  · exact .idle nofun
  · exact .pruned (by simpa using fun hr => h (.inl hr))

section Steps

variable {ref : Option PayloadRef} {json : Payload} {record : JsonText StepRecord} {summary : ℕ}
  {due : Option ℕ} {a : StepRecordCommit} {observations : List StaleEventIndexObservation}

theorem commitStepSuccess_effect :
    Script.HasEffect cfg i (.commitStepSuccess g t n o ref json record summary)
      (commitStepSuccess cfg g t n o ref json record summary i) := by
  unfold commitStepSuccess
  split
  · rename_i hc
    exact .idle (claimFence_error hc)
  rename_i s hs
  dsimp only
  split_ifs with hle
  · exact .idle nofun
  · exact .stepSucceeded s hs (not_lt.1 hle)

theorem commitStepError_effect :
    Script.HasEffect cfg i (.commitStepError g t n o ref json record summary due)
      (commitStepError cfg g t n o ref json record summary due i) := by
  unfold commitStepError
  split
  · rename_i hc
    exact .idle (claimFence_error hc)
  rename_i s hs
  dsimp only
  split
  · exact .idle nofun
  rename_i hle
  cases due with
  | none => exact .stepFailed s hs (not_lt.1 hle)
  | some due => exact .stepRetried s hs (not_lt.1 hle)

theorem commitStepRecord_effect :
    Script.HasEffect cfg i (.commitStepRecord g t n o a) (commitStepRecord cfg g t n o a i) := by
  unfold commitStepRecord
  split
  · rename_i hc
    exact .idle (claimFence_error hc)
  rename_i s hs
  split_ifs with hle
  · exact .idle nofun
  · exact .recorded s hs (not_lt.1 hle)

theorem restoreWaitingDue_effect :
    Script.HasEffect cfg i (.restoreWaitingDue g t n e) (restoreWaitingDue g t n e i) := by
  unfold restoreWaitingDue
  split
  · rename_i hc
    exact .idle (claimFence_error hc)
  rename_i s hs
  split_ifs with hst
  · exact .idle nofun
  · exact .restored s hs (not_not.1 hst)

theorem sendEvent_effect {payload : Payload} {type : EventType} {pre : List Char} :
    Script.HasEffect cfg i (.sendEvent payload type pre n g c)
      (sendEvent cfg payload type pre n g c i) := by
  unfold sendEvent
  split
  · exact .idle nofun
  rename_i s hs
  split
  · exact .idle nofun
  rename_i hterm
  split
  · exact .idle nofun
  rename_i hfence
  push Not at hfence
  split_ifs with hlimit
  · exact .idle nofun
  · exact .eventStored s hs (Bool.not_eq_true _ ▸ hterm) hfence.1 hfence.2 (not_lt.1 hlimit)

theorem cleanupStaleEventIndex_effect :
    Script.HasEffect cfg i (.cleanupStaleEventIndex g c t n observations)
      (cleanupStaleEventIndex g c t n observations i) := by
  unfold cleanupStaleEventIndex
  split
  · exact .idle nofun
  split
  · rename_i hc
    exact .idle (claimFence_error hc)
  · rename_i s hs
    exact .staleDropped s hs

end Steps

theorem createInstance_effect {a : CreateArgs} :
    Script.HasEffect cfg i (.createInstance a) (createInstance a i) := by
  unfold createInstance
  split
  · exact .idle nofun
  · rename_i hs
    exact .created hs

theorem finalizeCreateInstance_effect :
    Script.HasEffect cfg i (.finalizeCreateInstance t n) (finalizeCreateInstance t n i) := by
  unfold finalizeCreateInstance
  split
  · exact .idle nofun
  · rename_i s hs
    exact .finalized s hs

theorem cleanupPendingCreate_effect :
    Script.HasEffect cfg i (.cleanupPendingCreate t v) (cleanupPendingCreate t v i) := by
  unfold cleanupPendingCreate
  split
  · exact .idle nofun
  · rename_i s hs
    exact .pendingRemoved s hs

theorem pause_effect : Script.HasEffect cfg i (.pause g g' c) (pause g g' c i) := by
  unfold pause
  split
  · exact .idle nofun
  rename_i s hs
  split_ifs with h
  · exact .idle nofun
  · exact .paused s hs (by simpa using fun hterm => h (.inl hterm))

theorem resume_effect : Script.HasEffect cfg i (.resume g g' c) (resume g g' c i) := by
  unfold resume
  split
  · exact .idle nofun
  rename_i s hs
  split_ifs with h
  · exact .idle nofun
  · exact .resumed s hs (not_not.1 h)

theorem terminate_effect :
    Script.HasEffect cfg i (.terminate g g' c e v) (terminate g g' c e v i) := by
  unfold terminate
  split
  · exact .idle nofun
  rename_i s hs
  split_ifs with h
  · exact .idle nofun
  · exact .terminated s hs (by simpa using h)

theorem restart_effect {m : ℕ} {params : Payload} :
    Script.HasEffect cfg i (.restart m g g' c v v' n params)
      ((Script.restart m g g' c v v' n params).run cfg i) := by
  rw [Script.run, restart]
  split
  · exact .idle nofun
  · rename_i s hs
    exact .restarted s hs

section Ends

variable {outcome : RunOutcome} {result : Payload}

/-- A terminal commit is fenced, makes the waiting instance of an expired claim ready, or ends the
    instance: with its result, or as failed without it. -/
theorem commitRuntimeTerminal_effect :
    Script.HasEffect cfg i (.commitRuntimeTerminal g t outcome result n e e')
      (commitRuntimeTerminal cfg g t outcome result n e e' i) := by
  have hfenced : ¬ TerminalReply.fenced ≠ .fenced := fun hne => hne rfl
  unfold commitRuntimeTerminal
  split
  · exact .idle hfenced
  rename_i s hs
  split
  · exact .idle hfenced
  rename_i hfence
  push Not at hfence
  dsimp only
  split
  · exact .idle hfenced
  rename_i hact
  have hst : s.status = .running ∨ s.status = .waiting := by
    by_contra h
    exact hact ⟨fun hr => h (.inl hr), fun hw => h (.inr hw.2)⟩
  split
  · exact .idle hfenced
  split
  · split_ifs with hwaiting
    · exact .terminalRequeued s hs hwaiting.2
    · exact .idle hfenced
  split
  · rename_i hlt
    exact .terminalOverflow s hs hfence.2 hst hlt
  · rename_i hle
    exact .terminalCommitted s hs hfence.2 hst (not_lt.1 hle)

theorem removeRetentionToken_effect {seen : Option (Status × ℕ × ℕ)} :
    Script.HasEffect cfg i (.removeRetentionToken n seen) (removeRetentionToken n seen i) := by
  unfold removeRetentionToken
  split
  · exact .idle nofun
  rename_i hscore
  split_ifs with hseen
  · exact .idle nofun
  · exact .tokenRemoved (not_not.1 hscore) (not_not.1 hseen)

theorem cleanupRetention_effect :
    Script.HasEffect cfg i (.cleanupRetention g c n v) (cleanupRetention g c n v i) := by
  unfold cleanupRetention
  split
  · exact .idle nofun
  rename_i s hs
  split
  · exact .idle nofun
  rename_i hterm
  split
  · exact .idle nofun
  rename_i expiresAt he
  split_ifs with hnow
  · exact .idle nofun
  · exact .expired s expiresAt hs (by simpa using hterm) he (not_lt.1 hnow)

end Ends

theorem Script.run_effect (c : Script) : c.HasEffect cfg i (c.run cfg i) := by
  cases c with
  | readState | readReadyStateAndParams | readPayload | readStepRecord | readStepPayload
  | scanEventIndex | readEvents | scanDue | scanRetention
  | createPendingRestart | removePendingRestart => exact .idle id
  | claimRun => exact claimRun_effect
  | releaseRun => exact releaseRun_effect
  | clearSuspendedRun => exact clearSuspendedRun_effect
  | requeueExpiredRun => exact requeueExpiredRun_effect
  | moveDueToken => exact moveDueToken_effect
  | removeReadyTokenIfTerminal => exact removeReadyTokenIfTerminal_effect
  | removeReadyTokenIfStateMissing => exact removeReadyTokenIfStateMissing_effect
  | pruneReadyShard => exact pruneReadyShard_effect
  | commitStepSuccess => exact commitStepSuccess_effect
  | commitStepError => exact commitStepError_effect
  | commitStepRecord => exact commitStepRecord_effect
  | restoreWaitingDue => exact restoreWaitingDue_effect
  | sendEvent => exact sendEvent_effect
  | cleanupStaleEventIndex => exact cleanupStaleEventIndex_effect
  | createInstance => exact createInstance_effect
  | finalizeCreateInstance => exact finalizeCreateInstance_effect
  | cleanupPendingCreate => exact cleanupPendingCreate_effect
  | pause => exact pause_effect
  | resume => exact resume_effect
  | terminate => exact terminate_effect
  | restart => exact restart_effect
  | commitRuntimeTerminal => exact commitRuntimeTerminal_effect
  | removeRetentionToken => exact removeRetentionToken_effect
  | cleanupRetention => exact cleanupRetention_effect

/-- **What the scripts can do.** Every script has one of the effects. -/
theorem Script.exec_effect (c : Script) {x : c.Reply} (h : c.exec cfg i x i') :
    Effect cfg i c x i' := by
  rcases h with h | ⟨hexp, rfl⟩
  · have heff : c.HasEffect cfg i (x, i') := h ▸ c.run_effect
    exact heff
  · refine .idle fun heff => ?_
    cases c <;> first | exact hexp | (rw [show x = _ from hexp] at heff; cases heff)

end Wdl.Workflow
