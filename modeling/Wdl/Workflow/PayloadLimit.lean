import Wdl.Workflow.Processes

/-!
# The payload limit

In every reachable state the payload bytes are those of the stored values
(`payloadBytes_eq_storedBytes`), and a script that answers that the limit would be
exceeded has written nothing (`Effect.overLimit`).
-/

namespace Wdl.Workflow

/-- The reply is that the payload limit would be exceeded. -/
def Script.overLimit : (c : Script) → c.Reply → Prop
  | .commitStepSuccess .., x => x = StepCode.payloadLimit
  | .commitStepError .., x => x = StepCode.payloadLimit
  | .commitStepRecord .., x => x = StepCode.payloadLimit
  | .sendEvent .., x => x = SendReply.payloadLimit
  | .commitRuntimeTerminal .., x => x = TerminalReply.overflow
  | _, _ => False

/-- A script that refuses for the limit leaves the keys as they are, but for the commit of
    a result, which ends the instance as failed without its result. -/
theorem Effect.overLimit {cfg : Service} {c : Script} {i i' : Instance} {x : c.Reply}
    (heff : Effect cfg i c x i') (hover : c.overLimit x) :
    i' = i ∨ ∃ g t outcome result now e e' s,
      c = .commitRuntimeTerminal g t outcome result now e e' ∧ i.state = some s ∧
        i' = endInstance i s .failed e' := by
  cases heff with
  | idle => exact .inl rfl
  | @terminalOverflow g t outcome result n e e' s hs ht hst hlt =>
    exact .inr ⟨g, t, outcome, result, n, e, e', s, rfl, hs, rfl⟩
  | _ => cases hover

/-- **Payload accounting is exact.** In every reachable state the payload bytes of an
    instance are the bytes of all values that are stored for it, and within the limit.
    A script that answers that the limit would be exceeded changes none of the hashes:
    it changes nothing at all, or it is the commit of a result and ends the instance as
    failed. -/
theorem payloadBytes_eq_storedBytes {cfg : Service} {w : ServiceWorld} (h : Reachable cfg w) :
    (∀ s, w.store.inst.state = some s →
      s.payloadBytes = storedBytes w.store.inst ∧ s.payloadBytes ≤ cfg.payloadLimit) ∧
    ∀ (c : Script) (x : c.Reply) (i' : Instance), c.exec cfg w.store.inst x i' → c.overLimit x →
      (i'.payloads = w.store.inst.payloads ∧ i'.steps = w.store.inst.steps ∧
        i'.summaries = w.store.inst.summaries ∧ i'.events = w.store.inst.events) ∧
      (i' = w.store.inst ∨
        ∃ g t outcome result now e e' s, c = .commitRuntimeTerminal g t outcome result now e e' ∧
          w.store.inst.state = some s ∧ i' = endInstance w.store.inst s .failed e') := by
  have hacc := (ReachableWhen.storeInv h).accounted
  refine ⟨fun s hs => ⟨hacc.exact s hs, hacc.within s hs⟩, fun c x i' hexec hover => ?_⟩
  rcases (c.exec_effect hexec).overLimit hover with rfl | hend
  · exact ⟨⟨rfl, rfl, rfl, rfl⟩, .inl rfl⟩
  · refine ⟨?_, .inr hend⟩
    obtain ⟨g, t, outcome, result, now, e, e', s, -, -, rfl⟩ := hend
    exact ⟨rfl, rfl, rfl, rfl⟩

/-- An instance that was created with params and then sent an event. -/
noncomputable def eventSentWorld : ServiceWorld :=
  (ServiceWorld.initial.alone .standard 0 (.create ⟨examplePayload, 1000, 1000⟩) 10 100 7
    .malformed).alone .standard 1 (.sendEvent (some [97]) examplePayload) 10 200 7 .malformed

theorem eventSentWorld_reachable : Reachable .standard eventSentWorld :=
  ((Reachable.initial .standard).alone rfl _ _ _ _ _).alone rfl _ _ _ _ _

/-- The params, the payload of the event and its record are counted, and an event that is as
    large as the limit is refused. -/
theorem payloadBytes_eq_storedBytes_eventSent :
    (∃ s, eventSentWorld.store.inst.state = some s ∧ s.payloadBytes = 5 + 5 + 128 ∧
      s.payloadBytes = storedBytes eventSentWorld.store.inst) ∧
    ∃ i', Script.exec .standard (.sendEvent ⟨5, 16 * 1024 * 1024, by decide⟩ [97] [] 300 1 100)
        eventSentWorld.store.inst SendReply.payloadLimit i' ∧
      i'.payloads = eventSentWorld.store.inst.payloads := by
  obtain ⟨hexact, hover⟩ := payloadBytes_eq_storedBytes eventSentWorld_reachable
  have hexec : Script.exec .standard (.sendEvent ⟨5, 16 * 1024 * 1024, by decide⟩ [97] [] 300 1 100)
      eventSentWorld.store.inst SendReply.payloadLimit eventSentWorld.store.inst := .inl rfl
  exact ⟨⟨_, rfl, rfl, (hexact _ rfl).1⟩, _, hexec, (hover _ _ _ hexec rfl).1.1⟩

end Wdl.Workflow
