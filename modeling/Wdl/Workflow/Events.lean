import Wdl.Workflow.Calls

/-!
# The events of an instance and their index

An event is stored under its number, and the index has the members of exactly those
events that no wait has consumed (`EventsIndexed`). No effect breaks this:

* A new event gets the next number, and enters the index under its type.
* A wait that consumes an event takes the member of that event from the index, because
  the record it writes is of the event that it replaces (`CommittedEvent`).
* A cleanup drops nothing that stands for an unconsumed event, because what it was told
  to drop was seen to be stale, and still is.
-/

namespace Wdl.Workflow

open Option Api

/-! ## Events -/

/-- The records are of the same event, but for its consumption. -/
def EventRecord.Same (e e' : EventRecord) : Prop :=
  e'.id = e.id ∧ e'.type = e.type ∧ e'.payloadRef = e.payloadRef ∧ e'.createdAtMs = e.createdAtMs

/-- No event was lost. -/
def EventsKept (i i' : Instance) : Prop :=
  ∀ id e, i.events.lookup id = some e → ∃ e', i'.events.lookup id = some e' ∧ e.val.Same e'.val

theorem EventRecord.Same.trans {e e' e'' : EventRecord} (h : e.Same e') (h' : e'.Same e'') :
    e.Same e'' :=
  ⟨h'.1.trans h.1, h'.2.1.trans h.2.1, h'.2.2.1.trans h.2.2.1, h'.2.2.2.trans h.2.2.2⟩

theorem EventsKept.of_eq {i i' : Instance} (h : i'.events = i.events) : EventsKept i i' := by
  intro id e he
  exact ⟨e, by rw [h]; exact he, rfl, rfl, rfl, rfl⟩

theorem EventsKept.trans {i i' i'' : Instance} (h : EventsKept i i') (h' : EventsKept i' i'') :
    EventsKept i i'' := by
  intro id e he
  obtain ⟨e', he', hs⟩ := h id e he
  obtain ⟨e'', he'', hs'⟩ := h' id e' he'
  exact ⟨e'', he'', hs.trans hs'⟩

/-- The event is stored, and no wait has consumed it. -/
def Buffered (i : Instance) (id : ℕ) (type : EventType) : Prop :=
  ∃ e, i.events.lookup id = some e ∧ e.val.type = type ∧ e.val.Unconsumed

/-- The events are numbered without gaps up to the sequence number and stored under their
    number, and the index has the members of the unconsumed ones. -/
structure EventsIndexed (i : Instance) : Prop where
  numbered : ∀ s id e, i.state = some s → i.events.lookup id = some e →
    id ≤ s.eventSeq ∧ e.val.id = id ∧ e.val.payloadRef = .event id
  dense : ∀ s id, i.state = some s → 0 < id → id ≤ s.eventSeq → ∃ e, i.events.lookup id = some e
  index : ∀ m, m ∈ i.eventIndex ↔ ∃ id type, Buffered i id type ∧ m = eventTypeIndexMember type id

/-- What is known of a record commit that consumes an event. -/
def CommittedEvent (i : Instance) (a : StepRecordCommit) : Prop :=
  ∀ field json, a.eventRecord = some (field, json) →
    ∃ e, i.events.lookup field = some e ∧ e.val.Same json.val

/-- A record commit of a caller consumes an event and drops its member from the index, or
    does neither. -/
theorem recordCommit_event {cfg : Service} {n g t now o : ℕ} {k : Kind} {a : StepRecordCommit}
    (h : Calls cfg n k (.commitStepRecord g t now o a)) :
    (a.eventRecord = none ∧ a.eventIndexMember = none) ∨
      ∃ field json, a.eventRecord = some (field, json) ∧ json.val.consumedByOrdinal = some o ∧
        a.eventIndexMember = some (eventTypeIndexMember json.val.type json.val.id) := by
  obtain ⟨req, ⟨-, -, rfl⟩, ⟨-, kind, record, due, rfl, -⟩ | ⟨-, hw⟩⟩ := h
  · exact .inl ⟨rfl, rfl⟩
  · rcases hw with ⟨record, type, rfl, -⟩ | ⟨event, output, now, type, rfl, -⟩
    · exact .inl ⟨rfl, rfl⟩
    · cases event with
      | none => exact .inl ⟨rfl, rfl⟩
      | some event => exact .inr ⟨_, _, rfl, rfl, rfl⟩

namespace EventsIndexed

variable {cfg : Service} {i i' : Instance} {s s' : State}

theorem of_eq (h : EventsIndexed i) (hs : i.state = some s) (hs' : i'.state = some s')
    (hseq : s'.eventSeq = s.eventSeq) (he : i'.events = i.events)
    (hidx : i'.eventIndex = i.eventIndex) : EventsIndexed i' := by
  refine ⟨fun u id e hu hid => ?_, fun u id hu hpos hle => ?_, fun m => ?_⟩
  · cases hs'.symm.trans hu
    rw [hseq]
    exact h.numbered s id e hs (he ▸ hid)
  · cases hs'.symm.trans hu
    rw [he]
    exact h.dense s id hs hpos (hseq ▸ hle)
  · simp only [Buffered, he, hidx]
    exact h.index m

theorem of_empty (he : i'.events = ∅) (hidx : i'.eventIndex = ∅)
    (hseq : ∀ u, i'.state = some u → u.eventSeq = 0) : EventsIndexed i' := by
  have hnone : ∀ id e, i'.events.lookup id ≠ some e := by
    intro id e hid
    rw [he] at hid
    cases hid
  refine ⟨fun u id e _ hid => absurd hid (hnone id e), fun u id hu hpos hle => ?_, fun m => ?_⟩
  · rw [hseq u hu] at hle
    omega
  · rw [hidx]
    refine ⟨fun hm => absurd hm (Finset.notMem_empty m), ?_⟩
    rintro ⟨id, type, ⟨e, hid, -⟩, -⟩
    exact absurd hid (hnone id e)

variable {type : EventType}

section

variable (h : EventsIndexed i) (hs : i.state = some s)

include h hs

theorem storeEvent {payload : Payload} {now : ℕ} : EventsIndexed
      (Workflow.storeEvent cfg i s payload type (eventTypeIndexPrefix type) now) := by
  have hlookup : ∀ id, (Workflow.storeEvent cfg i s payload type (eventTypeIndexPrefix type)
      now).events.lookup id = if id = s.eventSeq + 1 then
        some (cfg.eventRecordJson (nextEventRecord s type now)) else i.events.lookup id :=
    fun id => Hash.lookup_insert_ite _ _ _ _
  refine ⟨fun u id e hu hid => ?_, fun u id hu hpos hle => ?_, fun m => ?_⟩
  · cases hu
    rw [hlookup] at hid
    split at hid
    · rename_i heq
      cases hid
      exact ⟨heq.le, heq.symm, by rw [heq]; rfl⟩
    · obtain ⟨hle, hrest⟩ := h.numbered s id e hs hid
      exact ⟨Nat.le_succ_of_le hle, hrest⟩
  · cases hu
    rw [hlookup]
    split_ifs with hne
    · exact ⟨_, rfl⟩
    · exact h.dense s id hs hpos (Nat.le_of_lt_succ (lt_of_le_of_ne hle hne))
  · change m ∈ insert (eventTypeIndexMember type (s.eventSeq + 1)) i.eventIndex ↔ _
    rw [Finset.mem_insert, h.index]
    constructor
    · rintro (rfl | ⟨id, type', ⟨e, hid, htype, hfree⟩, rfl⟩)
      · exact ⟨s.eventSeq + 1, type, ⟨_, by rw [hlookup, if_pos rfl], rfl, by rfl⟩, rfl⟩
      · have hne : id ≠ s.eventSeq + 1 := by
          have hle := (h.numbered s id e hs hid).1
          omega
        exact ⟨id, type', ⟨e, by rw [hlookup, if_neg hne]; exact hid, htype, hfree⟩, rfl⟩
    · rintro ⟨id, type', ⟨e, hid, htype, hfree⟩, rfl⟩
      rw [hlookup] at hid
      split at hid
      · rename_i heq
        cases hid
        exact .inl (by rw [heq, ← htype]; rfl)
      · exact .inr ⟨id, type', ⟨e, hid, htype, hfree⟩, rfl⟩

/-- An event that is consumed leaves the index, and no other does. -/
theorem consume {o field : ℕ} {a : StepRecordCommit} {json : JsonText EventRecord}
    (hlt : s.eventSeq < 10 ^ 20)
    (hevent : a.eventRecord = some (field, json)) (hused : json.val.consumedByOrdinal = some o)
    (hmember : a.eventIndexMember = some (eventTypeIndexMember json.val.type json.val.id))
    (hcommit : CommittedEvent i a) : EventsIndexed (writeRecord i s o a) := by
  obtain ⟨e₀, he₀, hid₀, htype₀, href₀, -⟩ := hcommit field json hevent
  obtain ⟨hle₀, hfield₀, hpay₀⟩ := h.numbered s field e₀ hs he₀
  have hlookup : ∀ id, (writeRecord i s o a).events.lookup id =
      if id = field then some json else i.events.lookup id := by
    intro id
    change (writeEvent i a.eventRecord).lookup id = _
    rw [hevent]
    exact Hash.lookup_insert_ite _ _ _ _
  have hidx : (writeRecord i s o a).eventIndex =
      i.eventIndex.erase (eventTypeIndexMember e₀.val.type field) := by
    change a.eventIndexMember.elim i.eventIndex i.eventIndex.erase = _
    rw [hmember, htype₀, hid₀, hfield₀]
    rfl
  refine ⟨fun u id e hu hid => ?_, fun u id hu hpos hle => ?_, fun m => ?_⟩
  · cases hu
    rw [hlookup] at hid
    split at hid
    · rename_i heq
      cases hid
      rw [heq, hid₀, href₀]
      exact ⟨hle₀, hfield₀, hpay₀⟩
    · exact h.numbered s id e hs hid
  · cases hu
    rw [hlookup]
    split
    · exact ⟨json, rfl⟩
    · exact h.dense s id hs hpos hle
  · rw [hidx, Finset.mem_erase, h.index]
    constructor
    · rintro ⟨hne, id, type, ⟨e, hid, htype, hfree⟩, rfl⟩
      have hid' : id ≠ field := by
        rintro rfl
        cases he₀.symm.trans hid
        exact hne (by rw [htype])
      exact ⟨id, type, ⟨e, by rw [hlookup, if_neg hid']; exact hid, htype, hfree⟩, rfl⟩
    · rintro ⟨id, type, ⟨e, hid, htype, hfree⟩, rfl⟩
      rw [hlookup] at hid
      split at hid
      · cases hid
        rw [EventRecord.Unconsumed, hused] at hfree
        cases hfree
      · rename_i hne
        refine ⟨fun heq => hne ?_, id, type, ⟨e, hid, htype, hfree⟩, rfl⟩
        have hle := (h.numbered s id e hs hid).1
        exact eventTypeIndexMember_inj heq (hle.trans_lt hlt) (hle₀.trans_lt hlt)

/-- A member that stands for an unconsumed event is not dropped as stale. -/
theorem not_stale {o : StaleEventIndexObservation} (hlt : s.eventSeq < 10 ^ 20)
    (hsound : o.Sound type) (hholds : o.holds i = true) : o.member ∉ i.eventIndex := by
  intro hm
  obtain ⟨hlo, hhi, hrecord⟩ := hsound
  obtain ⟨id, type', ⟨e, hid, htype, hfree⟩, hmem⟩ := (h.index _).1 hm
  have hle := (h.numbered s id e hs hid).1
  have hread : eventIdFromIndexMember o.member = some id := by
    rw [hmem]
    exact eventIdFromIndexMember_member type' (hle.trans_lt hlt)
  rw [StaleEventIndexObservation.holds] at hholds
  cases hrec : o.record with
  | malformedMember =>
    rw [hrec] at hrecord
    rw [show eventIdFromIndexMember o.member = none from hrecord] at hread
    cases hread
  | missing field =>
    rw [hrec] at hrecord hholds
    cases hread.symm.trans hrecord
    change (i.events.lookup id).isNone = true at hholds
    rw [hid] at hholds
    cases hholds
  | observed field raw =>
    rw [hrec] at hrecord hholds
    obtain ⟨hfield, hstale⟩ := hrecord
    cases hread.symm.trans hfield
    change (i.events.lookup id == some raw) = true at hholds
    rw [hid, beq_iff_eq, some.injEq] at hholds
    rw [hmem] at hlo hhi
    rcases hstale with hother | hconsumed
    · exact hother (by rw [← hholds, htype, type_of_mem_range hlo hhi])
    · exact hconsumed (hholds ▸ hfree)

theorem dropStale {observations : List StaleEventIndexObservation}
    (hlt : s.eventSeq < 10 ^ 20)
    (hsound : ∀ o ∈ observations, o.Sound type) :
    Workflow.dropStale i observations = i.eventIndex := by
  have hfold : ∀ l : List StaleEventIndexObservation, (∀ o ∈ l, o.Sound type) →
      l.foldl (fun z o => if o.holds i then z.erase o.member else z) i.eventIndex =
        i.eventIndex := by
    intro l hl
    induction l with
    | nil => rfl
    | cons o l ih =>
      obtain ⟨ho, hl⟩ := List.forall_mem_cons.1 hl
      rw [List.foldl_cons]
      split_ifs with hholds
      · rw [Finset.erase_eq_of_notMem (h.not_stale hs hlt ho hholds)]
        exact ih hl
      · exact ih hl
  exact hfold observations hsound

end

/-- **The index stays exact.** -/
theorem effect {n : ℕ} {k : Kind} {c : Script} {x : c.Reply} (h : EventsIndexed i)
    (hcalls : Calls cfg n k c) (hmissing : i.state = none → i.keys = Instance.absent.keys)
    (hlt : ∀ s, i.state = some s → s.eventSeq < 10 ^ 20)
    (hcommit : ∀ g t now o a, c = .commitStepRecord g t now o a → c.effective x →
      CommittedEvent i a)
    (heff : Effect cfg i c x i') : EventsIndexed i' := by
  cases heff with
  | idle | dueDropped | missingUnready | pruned | tokenRemoved | dueMovedFree | terminalUnready
  | terminalRequeued => exact ⟨h.numbered, h.dense, h.index⟩
  | claimed s hs | released s hs | clearedReady s _ hs | cleared s hs | requeued s hs
  | dueMoved s hs | terminalOverflow s hs | terminalCommitted s hs =>
    exact h.of_eq hs rfl rfl rfl rfl
  | stepSucceeded s hf | stepFailed s hf | stepRetried s hf | restored s hf =>
    exact h.of_eq (claimFence_ok hf).1 rfl rfl rfl rfl
  | finalized s hp => exact h.of_eq (pendingUnder_some hp).1 rfl rfl rfl rfl
  | paused s hi | resumed s hi | terminated s hi =>
    exact h.of_eq (incarnation_some hi).1 rfl rfl rfl rfl
  | pendingRemoved | expired =>
    exact of_empty rfl rfl fun u hu => absurd hu (some_ne_none u).symm
  | restarted => exact of_empty rfl rfl fun u hu => by obtain rfl := some.inj hu; rfl
  | created hs =>
    have hkeys := hmissing hs
    simp only [Instance.keys, Instance.absent, Prod.mk.injEq] at hkeys
    obtain ⟨-, -, -, -, hev, hidx⟩ := hkeys
    exact of_empty hev hidx fun u hu => by obtain rfl := some.inj hu; rfl
  | eventStored s hs =>
    obtain ⟨-, rfl⟩ := hcalls
    exact h.storeEvent hs
  | staleDropped s hf =>
    have hs := (claimFence_ok hf).1
    obtain ⟨req, type, -, -, hsound⟩ := hcalls
    exact h.of_eq hs hs rfl rfl (h.dropStale hs (hlt s hs) hsound)
  | @recorded g t now o a s hf =>
    have hs := (claimFence_ok hf).1
    rcases recordCommit_event hcalls with ⟨hevent, hmember⟩ | ⟨field, json, hevent, hused, hmember⟩
    · refine h.of_eq hs rfl rfl ?_ ?_
      · change writeEvent i a.eventRecord = i.events
        rw [hevent, writeEvent]
      · change a.eventIndexMember.elim i.eventIndex i.eventIndex.erase = i.eventIndex
        rw [hmember, elim_none]
    · exact h.consume hs (hlt s hs) hevent hused hmember (hcommit g t now o a rfl rfl)

end EventsIndexed

end Wdl.Workflow
