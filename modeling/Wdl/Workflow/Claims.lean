import Wdl.Workflow.Accounting

/-!
# What holds while a claim is held

The calls of Runtime are made of several round trips, and only some of them are
fenced. What makes them consistent is that run tokens are never used twice: if a
call finds its claim current at one point and again at a later point, then it was
current all the time in between, and the instance has not been restarted, taken over
or deleted meanwhile.

* `Rely`: what can happen between two calls of a process. As long as the claim is
  current after it, the claim was current before it and no event was lost.
* `Observed`: what a process has seen when it makes a call that depends on it. A
  record commit comes after a fenced read of the record, and an event that it consumes
  was found by a look at the index, a read of the events, and a read of the payload.
* `Policy`: what more can be said when the callers keep some discipline.
-/

namespace Wdl.Workflow

open Option Api ServiceM

/-! ## Claims -/

/-- The run token is the current claim. -/
def Claimed (t : ℕ) (db : Db) : Prop := ∃ s, db.inst.state = some s ∧ s.runToken = some t

/-- What is always true of the store: the current claim was made with a token that
    counts as used, a missing instance has no keys left, the index is that of the events,
    and the payload bytes are those of what is stored. -/
structure StoreInv (cfg : Service) (db : Db) : Prop where
  token_used : ∀ t, Claimed t db → t ∈ db.hist.used
  missing : db.inst.state = none → db.inst.keys = Instance.absent.keys
  events : EventsIndexed db.inst
  accounted : Accounted cfg db.inst

variable {cfg : Service}

theorem StoreInv.env {db db' : Db} {e : Env} (h : StoreInv cfg db)
    (he : Db.env e db db') : StoreInv cfg db' := by
  obtain ⟨⟨hnum, hdense, hidx⟩, ⟨hexact, hwithin, hpay, hres⟩⟩ := And.intro h.events h.accounted
  cases e with
  | tick t =>
    rw [he.2]
    exact ⟨h.token_used, h.missing, ⟨hnum, hdense, hidx⟩, ⟨hexact, hwithin, hpay, hres⟩⟩
  | othersReady b =>
    rw [show db' = _ from he]
    exact ⟨h.token_used, h.missing, ⟨hnum, hdense, hidx⟩, ⟨hexact, hwithin, hpay, hres⟩⟩

variable {id : ℕ}

theorem StoreInv.event_lt {db : Db} (h : StoreInv cfg db) {e : JsonText EventRecord}
    (he : db.inst.events.lookup id = some e) : id < 10 ^ 20 := by
  cases hs : db.inst.state with
  | none =>
    have hkeys := h.missing hs
    simp only [Instance.keys, Instance.absent, Prod.mk.injEq] at hkeys
    rw [hkeys.2.2.2.2.1] at he
    cases he
  | some s =>
    exact (h.events.numbered s id e hs he).1.trans_lt (h.accounted.eventSeq_lt h.events hs)

/-! ## Policies -/

/-- What more can be said of the calls of Runtime when the callers keep some discipline:
    what is kept while a claim is current, what is kept in any case, what holds when a
    process starts, and which processes run at once. -/
structure Policy where
  keep : Kind → ℕ → Db → Db → Prop
  frame : Kind → Db → Db → Prop
  start : Kind → Db → Prop
  compat : ℕ → Kind → ℕ → Kind → Prop
  keep_refl : ∀ k t s, keep k t s s
  keep_trans : ∀ k t s s' s'', keep k t s s' → keep k t s' s'' → keep k t s s''
  frame_refl : ∀ k s, frame k s s
  frame_trans : ∀ k s s' s'', frame k s s' → frame k s' s'' → frame k s s''
  start_frame : ∀ k s s', frame k s s' → start k s → start k s'

namespace Policy

/-- No discipline at all. -/
def free : Policy where
  keep _ _ _ _ := True
  frame _ _ _ := True
  start _ _ := True
  compat _ _ _ _ := True
  keep_refl _ _ _ := trivial
  keep_trans _ _ _ _ _ _ _ := trivial
  frame_refl _ _ := trivial
  frame_trans _ _ _ _ _ _ := trivial
  start_frame _ _ _ _ _ := trivial

variable (P : Policy)

/-- What can happen between two calls of a process. -/
structure Rely (cfg : Service) (i : ℕ) (k : Kind) (s s' : Db) : Prop where
  inv : StoreInv cfg s → StoreInv cfg s'
  fresh : i ∉ s.hist.used → i ∉ s'.hist.used
  used : ∀ t ∈ s.hist.used, t ∈ s'.hist.used
  lookups : ∀ l ∈ s.hist.lookups, l ∈ s'.hist.lookups
  frame : P.frame k s s'
  claim : ∀ t ∈ s.hist.used, Claimed t s' →
    Claimed t s ∧ EventsKept s.inst s'.inst ∧ P.keep k t s s'

theorem Rely.refl (cfg : Service) (i : ℕ) (k : Kind) (s : Db) : P.Rely cfg i k s s :=
  ⟨id, id, fun _ h => h, fun _ h => h, P.frame_refl k s,
    fun t _ ht => ⟨ht, .of_eq rfl, P.keep_refl k t s⟩⟩

variable {P}

theorem Rely.trans {cfg : Service} {i : ℕ} {k : Kind} {s s' s'' : Db} (h : P.Rely cfg i k s s')
    (h' : P.Rely cfg i k s' s'') : P.Rely cfg i k s s'' := by
  refine ⟨fun hi => h'.inv (h.inv hi), fun hf => h'.fresh (h.fresh hf),
    fun t ht => h'.used t (h.used t ht), fun l hl => h'.lookups l (h.lookups l hl),
    P.frame_trans _ _ _ _ h.frame h'.frame, fun t ht hc => ?_⟩
  obtain ⟨hc', he', hk'⟩ := h'.claim t (h.used t ht) hc
  obtain ⟨hc'', he, hk⟩ := h.claim t ht hc'
  exact ⟨hc'', he.trans he', P.keep_trans _ _ _ _ _ hk hk'⟩

end Policy

/-! ## Observations -/

/-- The record of a step is not finished, if there is one. -/
def Unfinished (raw : Option (JsonText StepRecord)) : Prop :=
  ∀ r, raw = some r → r.val.status = .waiting

/-- The page of events that a look at the index leads to. -/
def eventPage (members : List (List Char)) (i : Instance) :
    List ((List Char × ℕ) × Option (JsonText EventRecord)) :=
  (eventCandidates members).zip (((eventCandidates members).map Prod.snd).map i.events.lookup)

namespace Policy

variable (P : Policy)

/-- The wait found an event: it looked at the index in the store `s₁`, read the events in
    `s₂` and the payload of the one it picked in `s₃`. -/
def Found (cfg : Service) (i : ℕ) (k : Kind) (req : StepRequest) (type : EventType) (field : ℕ)
    (record : EventRecord) (payload : Payload) (s : Db) : Prop :=
  ∃ s₁ s₂ s₃ members stale, StoreInv cfg s₁ ∧ req.runToken ∈ s₁.hist.used ∧
    (⟨req.runToken, req.ordinal, s₁.inst⟩ : Lookup) ∈ s.hist.lookups ∧
    members = indexRange s₁.inst.eventIndex (eventTypeIndexPrefix type)
      Script.eventIndexScanBatchSize ∧
    P.Rely cfg i k s₁ s₂ ∧
    pickEvent type (eventPage members s₂.inst) (malformedMembers members) =
      (stale, some (field, record)) ∧
    P.Rely cfg i k s₂ s₃ ∧ s₃.inst.payloads.lookup record.payloadRef = some payload ∧
      P.Rely cfg i k s₃ s

/-- What the process has seen when it calls a script. -/
def Observed (cfg : Service) (i : ℕ) (k : Kind) : Script → Db → Prop
  | .claimRun .., s => i ∉ s.hist.used
  | .commitStepSuccess .., s | .commitStepError .., s => P.start k s
  | .commitStepRecord g t _ o a, s =>
    (∃ s₀ now raw, StoreInv cfg s₀ ∧ readStepRecord g t now o s₀.inst = .ok raw ∧ Unfinished raw ∧
      P.Rely cfg i k s₀ s) ∧
    ∀ field json, a.eventRecord = some (field, json) →
      ∃ req type record payload now, k = .registerWait req ∧ t = req.runToken ∧ o = req.ordinal ∧
        waitEventType req = .ok type ∧
        a = completedWaitCommit cfg req (some (field, record)) payload now ∧
        P.Found cfg i k req type field record payload s
  | _, _ => True

/-- What a process does in its calls. -/
def Guar (cfg : Service) (i : ℕ) (k : Kind) (s s' : Db) : Prop :=
  s' = s ∨ ∃ c y inst', Calls cfg i k c ∧ P.Observed cfg i k c s ∧ Effect cfg s.inst c y inst' ∧
    s' = s.after c y inst'

end Policy

/-! ## What the effects do to claims and events -/

variable {cfg : Service} {i i' : Instance} {c : Script} {x : c.Reply} {before : Set ℕ} {t : ℕ}

theorem mem_usedAfter (h : t ∈ before) : t ∈ usedAfter before c x := by
  cases c <;> first | exact h | exact .inl h

theorem usedAfter_cases (h : t ∈ usedAfter before c x) :
    t ∈ before ∨ ∃ st g e n cr, c = .claimRun st g t e n cr := by
  cases c <;> first
    | exact .inl h
    | (rcases h with h | ⟨-, rfl⟩
       · exact .inl h
       · exact .inr ⟨_, _, _, _, _, rfl⟩)

theorem mem_lookupsAfter {before : List Lookup} {l : Lookup} (h : l ∈ before) :
    l ∈ lookupsAfter before c i := by
  cases c <;> first | exact h | exact List.mem_cons_of_mem _ h

/-- A token that is current after an effect was current before it, or has just been
    claimed with. -/
theorem Effect.token (h : Effect cfg i c x i') {s' : State} (hs' : i'.state = some s')
    (ht : s'.runToken = some t) :
    (∃ s, i.state = some s ∧ s.runToken = some t) ∨
      ((∃ st g e n cr, c = .claimRun st g t e n cr) ∧ c.effective x) := by
  cases h with
  | claimed s hs _ _ _ _ =>
    cases hs'
    cases ht
    exact .inr ⟨⟨_, _, _, _, _, rfl⟩, rfl⟩
  | stepSucceeded s hs _ | stepFailed s hs _ | stepRetried s hs _ | recorded s hs _
  | restored s hs _ =>
    cases hs'
    exact .inl ⟨s, (claimFence_ok hs).1, ht⟩
  | eventStored s hs _ _ _ _ =>
    cases hs'
    exact .inl ⟨s, hs, ht⟩
  | finalized s hs =>
    cases hs'
    exact .inl ⟨s, (pendingUnder_some hs).1, ht⟩
  | idle _ | dueDropped _ | dueMovedFree _ _ _ _ | terminalUnready _ _ _ | missingUnready _
  | pruned _ | staleDropped _ _ | terminalRequeued _ _ _ | tokenRemoved _ _ =>
    exact .inl ⟨s', hs', ht⟩
  | pendingRemoved _ _ | expired _ _ _ _ _ _ => cases hs'
  | released _ _ _ _ _ | clearedReady _ _ _ _ _ _ _ _ | cleared _ _ _ _ _ _ | requeued _ _ _ _
  | dueMoved _ _ _ | created _ | paused _ _ _ | resumed _ _ _ | terminated _ _ _ | restarted _ _
  | terminalOverflow _ _ _ _ _ | terminalCommitted _ _ _ _ _ =>
    cases hs'
    cases ht

/-- An instance without state has no keys after an effect, if it had none before. -/
theorem Effect.missing (h : Effect cfg i c x i')
    (hi : i.state = none → i.keys = Instance.absent.keys) (hs' : i'.state = none) :
    i'.keys = Instance.absent.keys := by
  cases h with
  | idle _ | dueDropped _ | missingUnready _ | pruned _ | tokenRemoved _ _ => exact hi hs'
  | pendingRemoved _ _ | expired _ _ _ _ _ _ => rfl
  | dueMovedFree s hs _ _ | terminalUnready s hs _ | terminalRequeued s hs _ =>
    cases (show i.state = none from hs').symm.trans hs
  | staleDropped s hs =>
    cases ((claimFence_ok hs).1).symm.trans hs'
  | claimed | released | clearedReady | cleared | requeued | dueMoved | stepSucceeded
  | stepFailed | stepRetried | recorded | restored | eventStored | created | finalized | paused
  | resumed | terminated | restarted | terminalOverflow | terminalCommitted => cases hs'

/-- The events of before are there unchanged, with their payloads. -/
def EventsUnchanged (i i' : Instance) : Prop :=
  ∀ id e, i.events.lookup id = some e → i'.events.lookup id = some e ∧
    i'.payloads.lookup (.event id) = i.payloads.lookup (.event id)

theorem EventsUnchanged.trans {i i' i'' : Instance} (h : EventsUnchanged i i')
    (h' : EventsUnchanged i' i'') : EventsUnchanged i i'' := by
  intro id e he
  obtain ⟨he', hp'⟩ := h id e he
  obtain ⟨he'', hp''⟩ := h' id e he'
  exact ⟨he'', hp''.trans hp'⟩

theorem EventsUnchanged.of_eq (he : i'.events = i.events)
    (hp : ∀ id, i'.payloads.lookup (.event id) = i.payloads.lookup (.event id)) :
    EventsUnchanged i i' :=
  fun id e h => ⟨by rw [he]; exact h, hp id⟩

/-- Whatever events there are besides those of before are unconsumed. -/
def OnlyNewEvents (i i' : Instance) : Prop :=
  ∀ id e, i'.events.lookup id = some e → i.events.lookup id = some e ∨ e.val.Unconsumed

/-- What an effect does to the events: they are all deleted, or one of them is consumed, or
    those of before are unchanged and at most new ones are added. -/
theorem Effect.events_cases {n : ℕ} {k : Kind} (hcalls : Calls cfg n k c) (hev : EventsIndexed i)
    (h : Effect cfg i c x i') :
    c.deletes x ∨
      (∃ g t now o a field json, c = .commitStepRecord g t now o a ∧ c.effective x ∧
        a.eventRecord = some (field, json) ∧ i'.events = i.events.insert field json) ∨
      (EventsUnchanged i i' ∧ OnlyNewEvents i i' ∧ ¬ c.consumes x) := by
  have of_eq : i'.events = i.events →
      (∀ id, i'.payloads.lookup (.event id) = i.payloads.lookup (.event id)) →
      ¬ c.consumes x → EventsUnchanged i i' ∧ OnlyNewEvents i i' ∧ ¬ c.consumes x :=
    fun he hp hc => ⟨.of_eq he hp, fun id e hid => .inl (he ▸ hid), hc⟩
  cases h with
  | pendingRemoved | expired | restarted => exact .inl rfl
  | @eventStored payload type pre now g cr s hs =>
    refine .inr (.inr ⟨fun id e he => ?_, fun id e he => ?_, fun hc => hc⟩)
    · have hne : id ≠ s.eventSeq + 1 := by
        have hle := (hev.numbered s id e hs he).1
        omega
      exact ⟨(Finmap.lookup_insert_of_ne _ hne).trans he,
        Finmap.lookup_insert_of_ne _ fun heq => hne (PayloadRef.event.inj heq)⟩
    · change (i.events.insert (s.eventSeq + 1) _).lookup id = some e at he
      rw [Hash.lookup_insert_ite] at he
      split at he
      · cases he
        exact .inr rfl
      · exact .inl he
  | @recorded g t now o a s hf =>
    cases ha : a.eventRecord with
    | some ev =>
      refine .inr (.inl ⟨g, t, now, o, a, ev.1, ev.2, rfl, rfl, ha, ?_⟩)
      change writeEvent i a.eventRecord = _
      rw [ha, writeEvent]
    | none =>
      refine .inr (.inr (of_eq ?_ (fun id => ?_) fun hc => hc.2 ha))
      · change writeEvent i a.eventRecord = _
        rw [ha, writeEvent]
      · exact lookup_writePayload (Accounted.recordRef hcalls).1 (PayloadRef.not_ofStep_event o id)
  | stepSucceeded =>
    obtain ⟨req, attempt, -, -, -, rfl, -, -⟩ := hcalls
    exact .inr (.inr (of_eq rfl (fun id =>
      lookup_writePayload Accounted.successRecord_outputRef (PayloadRef.not_ofStep_event _ id))
      fun hc => hc))
  | stepFailed | stepRetried =>
    obtain ⟨req, attempt, -, -, -, rfl, -, -⟩ := hcalls
    exact .inr (.inr (of_eq rfl (fun id =>
      lookup_writePayload Accounted.errorRecord_errorRef (PayloadRef.not_ofStep_event _ id))
      fun hc => hc))
  | created =>
    exact .inr (.inr (of_eq rfl (fun id => Finmap.lookup_insert_of_ne _ (by simp)) fun hc => hc))
  | @terminalCommitted g t outcome =>
    refine .inr (.inr (of_eq rfl (fun id => Finmap.lookup_insert_of_ne _ ?_) fun hc => hc))
    cases outcome <;> simp [RunOutcome.ref]
  | idle hidle =>
    refine .inr (.inr (of_eq rfl (fun id => rfl) fun hc => hidle ?_))
    cases c <;> first | exact hc.elim | exact hc.1
  | _ => exact .inr (.inr (of_eq rfl (fun id => rfl) fun hc => hc))

/-- Nobody holds a claim once the events have been deleted. -/
theorem Effect.deleted (h : Effect cfg i c x i') (hdel : c.deletes x) :
    i'.events = ∅ ∧ ∀ s', i'.state = some s' → s'.runToken = none := by
  cases h with
  | pendingRemoved | expired => exact ⟨rfl, fun s' hs' => absurd hs' (some_ne_none s').symm⟩
  | restarted =>
    refine ⟨rfl, fun s' hs' => ?_⟩
    cases hs'
    rfl
  | idle hidle => cases c <;> first | exact hdel.elim | exact absurd hdel hidle
  | _ => exact hdel.elim

theorem eventPage_eq (members : List (List Char)) (i : Instance) :
    eventPage members i = (eventCandidates members).map fun a => (a, i.events.lookup a.2) := by
  rw [eventPage, List.map_map]
  induction eventCandidates members with
  | nil => rfl
  | cons a l ih => rw [List.map_cons, List.zip_cons_cons, ih, List.map_cons]; rfl

variable {members : List (List Char)}

theorem lookup_of_mem_eventPage {m : List Char} {r : Option (JsonText EventRecord)}
    (h : ((m, id), r) ∈ eventPage members i) : i.events.lookup id = r := by
  rw [eventPage_eq] at h
  obtain ⟨a, -, he⟩ := List.mem_map.1 h
  cases he
  rfl

/-- The event that is picked from a page of the range of a type is an unconsumed event of
    that type, as it was read. -/
theorem pickEvent_page {type : EventType} {stale : List StaleEventIndexObservation} {field : ℕ}
    {record : EventRecord}
    (hrange : ∀ m ∈ members, eventTypeIndexPrefix type ≤ m ∧ m ≤ eventTypeIndexPrefix type ++ ['~'])
    (h : pickEvent type (eventPage members i) (malformedMembers members) =
      (stale, some (field, record))) :
    record.type = type ∧ record.Unconsumed ∧
      ∃ raw, i.events.lookup field = some raw ∧ raw.val = record := by
  have hsound := pickEvent_sound (page_mem hrange
    (((eventCandidates members).map Prod.snd).map i.events.lookup)) (malformedMembers_sound hrange)
  rw [eventPage] at h
  rw [h] at hsound
  obtain ⟨htype, hfree, m, raw, hpage, hval⟩ := hsound.2 field record rfl
  exact ⟨htype, hfree, raw, lookup_of_mem_eventPage hpage, hval⟩

/-! ## Guarantees -/

namespace Policy

variable {P : Policy} {n : ℕ} {k : Kind} {s s' : Db}

/-- The event that a wait found is still there while its claim is current. -/
theorem Found.event {req : StepRequest} {type : EventType} {field : ℕ} {record : EventRecord}
    {payload : Payload} (h : P.Found cfg n k req type field record payload s)
    (hc : Claimed req.runToken s) :
    ∃ e, s.inst.events.lookup field = some e ∧ record.Same e.val := by
  obtain ⟨s₁, s₂, s₃, members, stale, -, hused, -, hmem, h₁₂, hpick, h₂₃, -, h₃⟩ := h
  rw [hmem] at hpick
  obtain ⟨-, -, raw, hraw, rfl⟩ := pickEvent_page (fun m hm => indexRange_mem hm) hpick
  exact ((h₂₃.trans h₃).claim _ (h₁₂.used _ hused) hc).2.1 field raw hraw

variable {t : ℕ}

/-- The event that a record commit consumes is there when it takes effect. -/
theorem Observed.committedEvent {g now o : ℕ} {a : StepRecordCommit}
    (h : P.Observed cfg n k (.commitStepRecord g t now o a) s) (hc : Claimed t s) :
    CommittedEvent s.inst a := by
  intro field json ha
  obtain ⟨req, type, record, payload, now', -, rfl, rfl, -, rfl, hfound⟩ := h.2 field json ha
  obtain ⟨e, he, h1, h2, h3, h4⟩ := hfound.event hc
  obtain ⟨-, rfl⟩ := Prod.mk.inj (some.inj ha)
  exact ⟨e, he, h1.symm, h2.symm, h3.symm, h4.symm⟩

theorem committedEvent_of_effect {y : c.Reply} {inst' : Instance}
    (hobs : P.Observed cfg n k c s) (heff : Effect cfg s.inst c y inst') :
    ∀ g t now o a, c = .commitStepRecord g t now o a → c.effective y → CommittedEvent s.inst a := by
  rintro g t now o a rfl hy
  cases heff with
  | idle hidle => exact absurd hy hidle
  | recorded st hst _ =>
    obtain ⟨hs, ht, -⟩ := claimFence_ok hst
    exact hobs.committedEvent ⟨st, hs, ht⟩

section

variable (h : P.Guar cfg n k s s')

include h

/-- A token that counts as used and is current after a call was current before it. -/
theorem Guar.claimed (ht : t ∈ s.hist.used)
    (hc : Claimed t s') : Claimed t s := by
  rcases h with rfl | ⟨c, y, inst', hcalls, hobs, heff, rfl⟩
  · exact hc
  · obtain ⟨st, hst, htok⟩ := hc
    rcases heff.token hst htok with ⟨st', hst', htok'⟩ | ⟨⟨_, _, _, _, _, rfl⟩, -⟩
    · exact ⟨st', hst', htok'⟩
    -- a process claims under its own number, which nobody has used before
    · obtain ⟨-, rfl, -⟩ := hcalls
      exact absurd ht hobs

theorem Guar.used : ∀ t ∈ s.hist.used, t ∈ s'.hist.used := by
  rcases h with rfl | ⟨c, y, inst', -, -, -, rfl⟩
  · exact fun _ ht => ht
  · exact fun _ ht => mem_usedAfter ht

theorem Guar.lookups : ∀ l ∈ s.hist.lookups, l ∈ s'.hist.lookups := by
  rcases h with rfl | ⟨c, y, inst', -, -, -, rfl⟩
  · exact fun _ hl => hl
  · exact fun _ hl => mem_lookupsAfter hl

theorem Guar.fresh {j : ℕ} (hj : n ≠ j) (hf : j ∉ s.hist.used) :
    j ∉ s'.hist.used := by
  rcases h with rfl | ⟨c, y, inst', hcalls, -, -, rfl⟩
  · exact hf
  · intro hused
    rcases usedAfter_cases hused with hused | ⟨_, _, _, _, _, rfl⟩
    · exact hf hused
    · exact hj hcalls.2.1.symm

theorem Guar.inv (hinv : StoreInv cfg s) : StoreInv cfg s' := by
  rcases h with rfl | ⟨c, y, inst', hcalls, hobs, heff, rfl⟩
  · exact hinv
  · have hlt : ∀ st, s.inst.state = some st → st.eventSeq < 10 ^ 20 :=
      fun st hst => hinv.accounted.eventSeq_lt hinv.events hst
    refine ⟨?_, heff.missing hinv.missing, hinv.events.effect hcalls hinv.missing hlt
      (committedEvent_of_effect hobs heff) heff, hinv.accounted.effect hcalls hinv.missing
      hinv.events heff⟩
    rintro t ⟨st, hst, htok⟩
    rcases heff.token hst htok with ⟨st', hst', htok'⟩ | ⟨⟨_, _, _, _, _, rfl⟩, heff'⟩
    · exact mem_usedAfter (hinv.token_used t ⟨st', hst', htok'⟩)
    · exact .inr ⟨heff', rfl⟩

/-- No call loses an event, unless it deletes them all, and then no claim is current. -/
theorem Guar.eventsKept_or (hinv : StoreInv cfg s) :
    EventsKept s.inst s'.inst ∨ (s'.hist.epoch = s.hist.epoch + 1 ∧ ∀ t, ¬ Claimed t s') := by
  rcases h with rfl | ⟨c, y, inst', hcalls, hobs, heff, rfl⟩
  · exact .inl (.of_eq rfl)
  · have hcommit := committedEvent_of_effect hobs heff
    rcases heff.events_cases hcalls hinv.events with
      hdel | ⟨g, t', now, o, a, field, json, rfl, hy, ha, hevents⟩ | ⟨hsame, -, -⟩
    · refine .inr ⟨if_pos hdel, ?_⟩
      rintro t ⟨st, hst, htok⟩
      cases ((heff.deleted hdel).2 st hst).symm.trans htok
    -- the record that is written over is of the same event
    · obtain ⟨e₀, he₀, hsame⟩ := hcommit g t' now o a rfl hy field json ha
      refine .inl fun id e he => ?_
      change ∃ e', inst'.events.lookup id = some e' ∧ e.val.Same e'.val
      rw [hevents, Hash.lookup_insert_ite]
      split_ifs with hf
      · rw [hf, he₀] at he
        cases he
        exact ⟨json, rfl, hsame⟩
      · exact ⟨e, he, rfl, rfl, rfl, rfl⟩
    · exact .inl fun id e he => ⟨e, (hsame id e he).1, rfl, rfl, rfl, rfl⟩

theorem Guar.eventsKept (hinv : StoreInv cfg s) (hc : Claimed t s') :
    EventsKept s.inst s'.inst :=
  (h.eventsKept_or hinv).resolve_right fun hdel => hdel.2 t hc

end

end Policy

end Wdl.Workflow
