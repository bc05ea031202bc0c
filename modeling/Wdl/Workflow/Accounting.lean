import Wdl.Workflow.Events
import Mathlib.Order.Interval.Finset.Nat

/-!
# The payload bytes of an instance

The state of an instance counts the bytes of everything that is stored for it in the
payloads, the steps, the summaries and the events. Each script that writes updates the
counter by the difference it makes, and refuses to go over the limit.

* `storedBytes` is what the counter should be, and `Accounted` that it is.
* The difference that a script computes is the difference that its writes make, as
  long as what it takes to be new is new: the result of a run, and the event with the
  next number. Both are part of the invariant.
-/

namespace Wdl.Workflow

open Hash PayloadRef Finmap Option

/-- The bytes of all values in the payloads, the steps, the summaries and the events. -/
def storedBytes (i : Instance) : ℕ :=
  Hash.total JsonText.bytes i.payloads + Hash.total JsonText.bytes i.steps +
    Hash.total id i.summaries + Hash.total JsonText.bytes i.events

/-- The counter is exact and within the limit, no event payload is numbered beyond the
    sequence number, and only an instance that has ended has a result. -/
structure Accounted (cfg : Service) (i : Instance) : Prop where
  exact : ∀ s, i.state = some s → s.payloadBytes = storedBytes i
  within : ∀ s, i.state = some s → s.payloadBytes ≤ cfg.payloadLimit
  eventPayload : ∀ s id p, i.state = some s → i.payloads.lookup (.event id) = some p →
    id ≤ s.eventSeq
  noResult : ∀ s, i.state = some s → s.status.terminal = false →
    i.payloads.lookup .output = none ∧ i.payloads.lookup .error = none

/-! ## Writes -/

section Writes

variable {i : Instance} {s : State} {o : ℕ} {ref : Option PayloadRef} {json : Option Payload}
  {record : JsonText StepRecord} {summary : ℕ}

/-- Writing a payload adds the bytes of the new one and takes those of the old one. -/
theorem total_writePayload (h : ref.isSome → json.isSome) :
    Hash.total JsonText.bytes (writePayload i ref json) + oldPayloadBytes i ref =
      Hash.total JsonText.bytes i.payloads + newPayloadBytes ref json := by
  cases ref with
  | none => rfl
  | some r =>
    obtain ⟨p, rfl⟩ := isSome_iff_exists.1 (h rfl)
    exact total_insert JsonText.bytes i.payloads r p

theorem total_writeEvent (event : Option (ℕ × JsonText EventRecord)) :
    Hash.total JsonText.bytes (writeEvent i event) + oldEventBytes i event =
      Hash.total JsonText.bytes i.events + event.elim 0 fun e => e.2.bytes := by
  cases event with
  | none => rfl
  | some e => exact total_insert JsonText.bytes i.events e.1 e.2

/-- The payload bytes that a step commit computes are those that it leaves. -/
theorem storedBytes_writeStep (hexact : s.payloadBytes = storedBytes i)
    (h : ref.isSome → json.isSome) (s' : State) (bytes : ℤ) :
    (storedBytes (writeStep i s' o ref json record summary bytes) : ℤ) =
      nextPayloadBytes i s o ref json record summary := by
  have hpay := total_writePayload (i := i) h
  have hstep := total_insert JsonText.bytes i.steps o record
  have hsum := total_insert id i.summaries o summary
  rw [nextPayloadBytes, hexact]
  simp only [storedBytes, writeStep, id_eq] at *
  omega

theorem storedBytes_writeRecord {a : StepRecordCommit} (hexact : s.payloadBytes = storedBytes i)
    (h : a.payloadRef.isSome → a.payloadJson.isSome) :
    (storedBytes (writeRecord i s o a) : ℤ) = recordPayloadBytes i s o a := by
  have hstep : (storedBytes (writeStep i s o a.payloadRef a.payloadJson a.record a.summary 0) : ℤ) =
      nextPayloadBytes i s o a.payloadRef a.payloadJson a.record a.summary :=
    storedBytes_writeStep hexact h s 0
  have hev := total_writeEvent (i := i) a.eventRecord
  rw [recordPayloadBytes, ← hstep]
  simp only [storedBytes, writeRecord, writeStep]
  omega

end Writes

/-- The reference is of the step with this ordinal. -/
def PayloadRef.OfStep (ordinal : ℕ) : PayloadRef → Prop
  | .stepOutput n | .stepError n | .stepEvent n => n = ordinal
  | _ => False

theorem PayloadRef.not_ofStep_event (o id : ℕ) : ¬ (PayloadRef.event id).OfStep o := fun h => h

theorem PayloadRef.not_ofStep_output (o : ℕ) : ¬ PayloadRef.output.OfStep o := fun h => h

theorem PayloadRef.not_ofStep_error (o : ℕ) : ¬ PayloadRef.error.OfStep o := fun h => h

variable {i : Instance}

/-- A payload of a step is written beside those of events and results. -/
theorem lookup_writePayload {o : ℕ} {ref : Option PayloadRef} {json : Option Payload}
    (h : ∀ r, ref = some r → r.OfStep o) {r : PayloadRef} (hr : ¬ r.OfStep o) :
    (writePayload i ref json).lookup r = i.payloads.lookup r := by
  unfold writePayload
  split
  · rename_i r' p
    refine lookup_insert_of_ne _ fun hne => hr ?_
    rw [hne]
    exact h r' rfl
  · rfl

namespace Accounted

variable {cfg : Service} {i i' : Instance} {s s' : State}

/-- A step that writes nothing that is counted, and does not bring back an instance that
    has ended. -/
theorem of_eq (h : Accounted cfg i) (hs : i.state = some s) (hs' : i'.state = some s')
    (hbytes : s'.payloadBytes = s.payloadBytes) (hseq : s'.eventSeq = s.eventSeq)
    (hterm : s'.status.terminal = false → s.status.terminal = false)
    (hpay : i'.payloads = i.payloads) (hsteps : i'.steps = i.steps)
    (hsum : i'.summaries = i.summaries) (hev : i'.events = i.events) : Accounted cfg i' := by
  have hstored : storedBytes i' = storedBytes i := by
    rw [storedBytes, storedBytes, hpay, hsteps, hsum, hev]
  refine ⟨fun t ht => ?_, fun t ht => ?_, fun t id p ht hp => ?_, fun t ht hst => ?_⟩ <;>
    cases hs'.symm.trans ht
  · rw [hbytes, hstored]
    exact h.exact s hs
  · rw [hbytes]
    exact h.within s hs
  · rw [hpay] at hp
    rw [hseq]
    exact h.eventPayload s id p hs hp
  · rw [hpay]
    exact h.noResult s hs (hterm hst)

/-- A step commit that stays within the limit. -/
theorem writeStep {o : ℕ} {ref : Option PayloadRef} {json : Payload} {record : JsonText StepRecord}
    {summary : ℕ} (h : Accounted cfg i) (hs : i.state = some s) (hst : s.status.terminal = false)
    (href : ∀ r, ref = some r → r.OfStep o)
    (hle : nextPayloadBytes i s o ref (some json) record summary ≤ cfg.payloadLimit)
    (hi' : i'.state = some { s' with
      payloadBytes := nextPayloadBytes i s o ref (some json) record summary })
    (hseq : s'.eventSeq = s.eventSeq) (hpay : i'.payloads = writePayload i ref (some json))
    (hsteps : i'.steps = i.steps.insert o record)
    (hsum : i'.summaries = i.summaries.insert o summary) (hev : i'.events = i.events) :
    Accounted cfg i' := by
  have hstored : (storedBytes i' : ℤ) = nextPayloadBytes i s o ref (some json) record summary := by
    rw [← storedBytes_writeStep (h.exact s hs) (fun _ => rfl) s 0, storedBytes, storedBytes, hpay,
      hsteps, hsum, hev]
    rfl
  refine ⟨fun t ht => ?_, fun t ht => ?_, fun t id p ht hp => ?_, fun t ht _ => ?_⟩ <;>
    cases hi'.symm.trans ht
  · exact hstored.symm
  · exact hle
  · rw [hpay, lookup_writePayload href (not_ofStep_event o id)] at hp
    exact hseq ▸ h.eventPayload s id p hs hp
  · rw [hpay, lookup_writePayload href (not_ofStep_output o),
      lookup_writePayload href (not_ofStep_error o)]
    exact h.noResult s hs hst

variable {a : StepRecordCommit}

/-- A record commit that stays within the limit. -/
theorem writeRecord {o : ℕ} (h : Accounted cfg i) (hs : i.state = some s)
    (hst : s.status.terminal = false) (href : ∀ r, a.payloadRef = some r → r.OfStep o)
    (hjson : a.payloadRef.isSome → a.payloadJson.isSome)
    (hle : recordPayloadBytes i s o a ≤ cfg.payloadLimit) :
    Accounted cfg (Workflow.writeRecord i s o a) := by
  refine ⟨fun t ht => ?_, fun t ht => ?_, fun t id p ht hp => ?_, fun t ht _ => ?_⟩ <;>
    cases ht
  · exact (storedBytes_writeRecord (h.exact s hs) hjson).symm
  · exact hle
  · change (writePayload i a.payloadRef a.payloadJson).lookup (.event id) = some p at hp
    rw [lookup_writePayload href (not_ofStep_event o id)] at hp
    exact h.eventPayload s id p hs hp
  · change (writePayload i a.payloadRef a.payloadJson).lookup .output = none ∧
      (writePayload i a.payloadRef a.payloadJson).lookup .error = none
    rw [lookup_writePayload href (not_ofStep_output o),
      lookup_writePayload href (not_ofStep_error o)]
    exact h.noResult s hs hst

variable {now : ℕ}

/-- The next event is new, and so its bytes are added. -/
theorem storeEvent {payload : Payload} {type : EventType} {pre : List Char} (h : Accounted cfg i)
    (hev : EventsIndexed i) (hs : i.state = some s) (hst : s.status.terminal = false)
    (hle : eventPayloadBytes cfg s payload type now ≤ cfg.payloadLimit) :
    Accounted cfg (Workflow.storeEvent cfg i s payload type pre now) := by
  have hpay : i.payloads.lookup (.event (s.eventSeq + 1)) = none := by
    by_contra hne
    obtain ⟨p, hp⟩ := ne_none_iff_exists'.1 hne
    have := h.eventPayload s _ p hs hp
    omega
  have hnew : i.events.lookup (s.eventSeq + 1) = none := by
    by_contra hne
    obtain ⟨e, he⟩ := ne_none_iff_exists'.1 hne
    have := (hev.numbered s _ e hs he).1
    omega
  refine ⟨fun t ht => ?_, fun t ht => ?_, fun t id p ht hp => ?_, fun t ht _ => ?_⟩ <;>
    cases ht
  · have h1 := total_insert JsonText.bytes i.payloads (.event (s.eventSeq + 1)) payload
    have h2 := total_insert JsonText.bytes i.events (s.eventSeq + 1)
      (cfg.eventRecordJson (nextEventRecord s type now))
    rw [sizeAt_of_lookup_none _ hpay] at h1
    rw [sizeAt_of_lookup_none _ hnew] at h2
    have hexact := h.exact s hs
    simp only [storedBytes, Workflow.storeEvent, eventPayloadBytes] at *
    omega
  · exact hle
  · change (i.payloads.insert (.event (s.eventSeq + 1)) payload).lookup (.event id) = some p at hp
    change id ≤ s.eventSeq + 1
    rw [lookup_insert_ite] at hp
    split at hp
    · rename_i heq
      exact (event.inj heq).le
    · exact Nat.le_succ_of_le (h.eventPayload s id p hs hp)
  · change (i.payloads.insert (.event (s.eventSeq + 1)) payload).lookup .output = none ∧
      (i.payloads.insert (.event (s.eventSeq + 1)) payload).lookup .error = none
    have hout : output ≠ .event (s.eventSeq + 1) := by simp
    have herr : error ≠ .event (s.eventSeq + 1) := by simp
    rw [lookup_insert_of_ne _ hout, lookup_insert_of_ne _ herr]
    exact h.noResult s hs hst

/-- The result of a run is new, and so its bytes are added. -/
theorem storeResult {outcome : RunOutcome} {result : Payload} {e : ℕ} (h : Accounted cfg i)
    (hs : i.state = some s) (hst : s.status.terminal = false)
    (hle : s.payloadBytes + result.bytes ≤ cfg.payloadLimit) :
    Accounted cfg (Workflow.storeResult i s outcome result e) := by
  have hnew : i.payloads.lookup outcome.ref = none := by
    cases outcome with
    | completed => exact (h.noResult s hs hst).1
    | failed => exact (h.noResult s hs hst).2
  refine ⟨fun t ht => ?_, fun t ht => ?_, fun t id p ht hp => ?_, fun t ht hst' => ?_⟩ <;>
    cases ht
  · have h1 := total_insert JsonText.bytes i.payloads outcome.ref result
    rw [sizeAt_of_lookup_none _ hnew] at h1
    have hexact := h.exact s hs
    simp only [storedBytes, Workflow.storeResult, endInstance, Instance.setState, State.dropClaim,
      State.dropRun] at *
    omega
  · exact hle
  · change (i.payloads.insert outcome.ref result).lookup (.event id) = some p at hp
    have hne : event id ≠ outcome.ref := by cases outcome <;> simp [RunOutcome.ref]
    rw [lookup_insert_of_ne _ hne] at hp
    exact h.eventPayload s id p hs hp
  · cases outcome <;> cases hst'

/-- An instance that holds nothing but its params. -/
theorem of_params {params : Payload} (hs : i'.state = some s')
    (hbytes : s'.payloadBytes = params.bytes)
    (hpay : i'.payloads = (∅ : Hash PayloadRef Payload).insert .params params)
    (hsteps : i'.steps = ∅) (hsum : i'.summaries = ∅) (hev : i'.events = ∅)
    (hle : params.bytes ≤ cfg.paramsLimit) : Accounted cfg i' := by
  have htotal : total JsonText.bytes i'.payloads = params.bytes := by
    rw [hpay, total_insert_of_notMem _ _ notMem_empty, total_empty, Nat.add_zero]
  have hother : ∀ r, r ≠ .params → i'.payloads.lookup r = none := fun r hr => by
    rw [hpay, lookup_insert_of_ne _ hr, lookup_empty]
  refine ⟨fun t ht => ?_, fun t ht => ?_, fun t id p ht hp => ?_, fun t ht _ => ?_⟩ <;>
    cases hs.symm.trans ht
  · rw [hbytes, storedBytes, htotal, hsteps, hsum, hev]
    rfl
  · rw [hbytes]
    exact_mod_cast hle.trans cfg.paramsLimit_le
  · cases (hother (.event id) (by simp)).symm.trans hp
  · exact ⟨hother .output (by simp), hother .error (by simp)⟩

theorem of_missing (hs : i'.state = none) : Accounted cfg i' := by
  refine ⟨fun t ht => ?_, fun t ht => ?_, fun t _ _ ht _ => ?_, fun t ht _ => ?_⟩ <;>
    · cases hs.symm.trans ht

variable {req : Api.StepRequest}

theorem successRecord_outputRef {attempt : ℕ} (r : PayloadRef)
    (h : (Api.successRecord req attempt now).outputRef = some r) :
    r.OfStep req.ordinal := by
  simp only [Api.successRecord, ite_none_right_eq_some, Option.some.injEq] at h
  obtain ⟨-, rfl⟩ := h
  rfl

theorem errorRecord_errorRef {attempt : ℕ} {due : Option ℕ}
    (r : PayloadRef) (h : (Api.errorRecord req attempt now due).errorRef = some r) :
    r.OfStep req.ordinal := by
  simp only [Api.errorRecord, ite_none_right_eq_some, Option.some.injEq] at h
  obtain ⟨-, rfl⟩ := h
  rfl

/-- A payload that a caller refers to in a record commit is that of its step, and is sent
    along. -/
theorem recordRef {n g t o : ℕ} {k : Kind} (h : Calls cfg n k (.commitStepRecord g t now o a)) :
    (∀ r, a.payloadRef = some r → r.OfStep o) ∧ (a.payloadRef.isSome → a.payloadJson.isSome) := by
  obtain ⟨req, ⟨-, -, rfl⟩, ⟨-, kind, record, due, rfl, -⟩ | ⟨-, hw⟩⟩ := h
  · exact ⟨by simp [Api.sleepCommit], by simp [Api.sleepCommit]⟩
  · rcases hw with ⟨record, type, rfl, -⟩ | ⟨event, output, now, type, rfl, -⟩
    · exact ⟨by simp [Api.waitingCommit], by simp [Api.waitingCommit]⟩
    · refine ⟨fun r hr => ?_, fun _ => rfl⟩
      change (Api.completedWaitRecord req output now).outputRef = some r at hr
      simp only [Api.completedWaitRecord, ite_none_right_eq_some, Option.some.injEq] at hr
      obtain ⟨-, rfl⟩ := hr
      rfl

/-- **The counter stays exact, and within the limit.** -/
theorem effect {n : ℕ} {k : Kind} {c : Script} {x : c.Reply} (hcalls : Calls cfg n k c)
    (hmiss : i.state = none → i.keys = Instance.absent.keys) (hev : EventsIndexed i)
    (h : Accounted cfg i) (heff : Effect cfg i c x i') : Accounted cfg i' := by
  cases heff with
  | idle => exact h
  | claimed s hs hst =>
    obtain ⟨-, -, -, hq⟩ := hcalls
    refine h.of_eq hs rfl rfl rfl (fun _ => ?_) rfl rfl rfl rfl
    rcases hq with rfl | rfl <;> rw [hst] <;> rfl
  | released s hs hg ht hst =>
    exact h.of_eq hs rfl rfl rfl (fun _ => by rw [hst]; rfl) rfl rfl rfl rfl
  | clearedReady s pre hs | cleared s hs => exact h.of_eq hs rfl rfl rfl id rfl rfl rfl rfl
  | requeued s hs hst =>
    exact h.of_eq hs rfl rfl rfl (fun _ => by rw [hst]; rfl) rfl rfl rfl rfl
  | dueDropped | dueMovedFree | terminalUnready | missingUnready | pruned | terminalRequeued
  | staleDropped | tokenRemoved => exact ⟨h.exact, h.within, h.eventPayload, h.noResult⟩
  | dueMoved s hs => exact h.of_eq hs rfl rfl rfl id rfl rfl rfl rfl
  | stepSucceeded s hf hle =>
    obtain ⟨hs, hst⟩ := claimFence_active hf
    obtain ⟨req, attempt, -, ⟨-, -, rfl⟩, -, rfl, -, -⟩ := hcalls
    exact h.writeStep hs hst successRecord_outputRef hle rfl rfl rfl rfl rfl rfl
  | stepFailed s hf hle | stepRetried s hf hle =>
    obtain ⟨hs, hst⟩ := claimFence_active hf
    obtain ⟨req, attempt, -, ⟨-, -, rfl⟩, -, rfl, -, -⟩ := hcalls
    exact h.writeStep hs hst errorRecord_errorRef hle rfl rfl rfl rfl rfl rfl
  | recorded s hf hle =>
    obtain ⟨hs, hst⟩ := claimFence_active hf
    obtain ⟨href, hjson⟩ := recordRef hcalls
    exact h.writeRecord hs hst href hjson hle
  | restored s hf hst =>
    obtain ⟨hs, hst'⟩ := claimFence_active hf
    exact h.of_eq hs rfl rfl rfl (fun _ => hst') rfl rfl rfl rfl
  | eventStored s hs hst hg hc hle => exact h.storeEvent hev hs hst hle
  | created hs =>
    -- Nothing is left of an earlier instance of this name.
    have hkeys := hmiss hs
    simp only [Instance.keys, Instance.absent, Prod.mk.injEq] at hkeys
    obtain ⟨-, hpay, hsteps, hsum, hevents, -⟩ := hkeys
    exact of_params rfl rfl (by rw [hpay]) hsteps hsum hevents hcalls.2.2
  | finalized s hp =>
    obtain ⟨hs, -, hst, -⟩ := pendingUnder_some hp
    exact h.of_eq hs rfl rfl rfl (fun _ => by rw [hst]; rfl) rfl rfl rfl rfl
  | pendingRemoved | expired => exact of_missing rfl
  | paused s hi hst | terminated s hi hst =>
    exact h.of_eq (incarnation_some hi).1 rfl rfl rfl (fun _ => hst) rfl rfl rfl rfl
  | resumed s hi hst =>
    exact h.of_eq (incarnation_some hi).1 rfl rfl rfl (fun _ => by rw [hst]; rfl) rfl rfl rfl rfl
  | restarted s hs => exact of_params rfl rfl rfl rfl rfl rfl hcalls.2.2
  | terminalOverflow s hs ht hst =>
    exact h.of_eq hs rfl rfl rfl (fun h => by cases h) rfl rfl rfl rfl
  | terminalCommitted s hs ht hst hle =>
    refine h.storeResult hs ?_ hle
    rcases hst with hst | hst <;> rw [hst] <;> rfl

end Accounted

/-- Every event takes some bytes, so that the sequence number stays within the payload
    limit, and its twenty digits suffice. -/
theorem Accounted.eventSeq_lt {cfg : Service} {s : State} (h : Accounted cfg i)
    (hev : EventsIndexed i) (hs : i.state = some s) : s.eventSeq < 10 ^ 20 := by
  have hsub : Finset.Icc 1 s.eventSeq ⊆ i.events.keys := by
    intro id hid
    obtain ⟨hpos, hle⟩ := Finset.mem_Icc.1 hid
    obtain ⟨e, he⟩ := hev.dense s id hs hpos hle
    exact mem_keys.2 (mem_of_lookup_eq_some he)
  have hcard := Finset.card_le_card hsub
  rw [Nat.card_Icc, Nat.add_sub_cancel] at hcard
  have htotal := card_keys_le_total JsonText.bytes JsonText.bytes_pos i.events
  have hexact := h.exact s hs
  have hwithin := h.within s hs
  have hlimit := cfg.payloadLimit_lt
  rw [storedBytes] at hexact
  omega

end Wdl.Workflow
