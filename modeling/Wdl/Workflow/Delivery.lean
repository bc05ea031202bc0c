import Wdl.Workflow.Processes

/-!
# Events are delivered once and in order

A wait finds its event in three round trips and consumes it in a fourth. When no run has
two waits in flight at once, nothing that matters changes in between:

* While a claim is current only its own run can consume events, so that the events a wait
  has seen are unchanged until it commits (`Policy.oneWait`).
* The event that a wait takes is therefore the first unconsumed one of its type at the time
  of its look at the index (`Found.first`), and still unconsumed when it is consumed.
* `Delivered` collects this for all consumptions of the history.
-/

namespace Wdl.Workflow

open Option ReachableWhen List Api ServiceM

variable {cfg : Service} {i i' : Instance} {n : ℕ} {k : Kind} {s s' : Db}

/-! ## One wait at a time -/

/-- A run has at most one wait in flight. -/
def OneWaitPerRun (w : ServiceWorld) : Label api Kind Env → Prop
  | .spawn _ (.registerWait req) => ∀ j p req', w.proc j = some p → p.Running →
      p.kind = .registerWait req' → req'.runToken ≠ req.runToken
  | _ => True

/-- While the claim of a wait is current, the events stay as they are. -/
def Policy.oneWait : Policy where
  keep k t s s' := ∀ req, k = .registerWait req → t = req.runToken → EventsUnchanged s.inst s'.inst
  frame _ _ _ := True
  start _ _ := True
  compat _ k _ k' := ∀ req req', k = .registerWait req → k' = .registerWait req' →
    req.runToken ≠ req'.runToken
  keep_refl _ _ _ _ _ _ := .of_eq rfl fun _ => rfl
  keep_trans _ _ _ _ _ h h' req hk ht := (h req hk ht).trans (h' req hk ht)
  frame_refl _ _ := trivial
  frame_trans _ _ _ _ _ _ := trivial
  start_frame _ _ _ _ _ := trivial

variable {c : Script} {y : c.Reply}

/-- While a claim is current, only its own run consumes events. -/
theorem Effect.eventsUnchanged {inst' : Instance} {t : ℕ}
    (hinv : StoreInv cfg s) (hcalls : Calls cfg n k c) (heff : Effect cfg s.inst c y inst')
    (hc : Claimed t (s.after c y inst')) :
    EventsUnchanged s.inst inst' ∨
      ∃ g now o a, c = .commitStepRecord g t now o a ∧ a.eventRecord ≠ none := by
  rcases heff.events_cases hcalls hinv.events with
    hdel | ⟨g, t', now, o, a, field, json, rfl, hy, ha, -⟩ | ⟨hsame, -, -⟩
  · obtain ⟨st, hst, htok⟩ := hc
    cases ((heff.deleted hdel).2 st hst).symm.trans htok
  · cases heff with
    | idle hidle => exact absurd hy hidle
    | recorded st hf _ =>
      -- the commit is fenced by the claim, which it leaves as it is
      obtain ⟨st', hst', htok⟩ := hc
      cases hst'
      obtain ⟨-, htok', -⟩ := claimFence_ok hf
      cases htok'.symm.trans htok
      exact .inr ⟨g, now, o, a, rfl, by rw [ha]; exact some_ne_none _⟩
  · exact .inl hsame

theorem Policy.oneWait_sound (cfg : Service) : Policy.oneWait.Sound cfg OneWaitPerRun where
  other j k j' k' s s' _ hcomp hinv hg := by
    refine ⟨trivial, fun t _ hc req' hk' ht => ?_⟩
    rcases hg with rfl | ⟨c, y, inst', hcalls, -, heff, rfl⟩
    · exact .of_eq rfl fun _ => rfl
    · rcases heff.eventsUnchanged hinv hcalls hc with hsame | ⟨g, now, o, a, rfl, ha⟩
      · exact hsame
      · obtain ⟨req, ⟨-, hreq, -⟩, ⟨-, kind, record, due, rfl, -⟩ | ⟨hk, -⟩⟩ := hcalls
        · exact absurd rfl ha
        · exact absurd (hreq.symm.trans ht) (hcomp req req' hk hk')
  own j k c s y inst' _ hlooks hcalls hinv heff := by
    refine ⟨trivial, fun t _ hc req _ _ => ?_⟩
    rcases heff.eventsUnchanged hinv hcalls hc with hsame | ⟨g, now, o, a, rfl, ha⟩
    · exact hsame
    · exact absurd hlooks.1 ha
  env w e s' k _ he := by
    refine ⟨trivial, fun t req _ _ => ?_⟩
    cases e with
    | tick t' => rw [he.2]; exact .of_eq rfl fun _ => rfl
    | othersReady b => rw [show s' = _ from he]; exact .of_eq rfl fun _ => rfl
  spawn_compat w j k _ _ hok j' p hp hrun := by
    refine ⟨?_, ?_⟩
    · rintro req req' rfl hk'
      exact (hok j' p req' hp hrun hk').symm
    · rintro req req' hk' rfl
      exact hok j' p req hp hrun hk'
  spawn_start _ _ _ _ _ _ _ := trivial

/-! ## The event that a wait takes -/

/-- The event is the first unconsumed one of its type. -/
def FirstBuffered (i : Instance) (type : EventType) (id : ℕ) : Prop :=
  Buffered i id type ∧ ∀ id', Buffered i id' type → id ≤ id'

variable {type : EventType} {field : ℕ} {record : EventRecord}

/-- The event that is picked comes after members that were stale when they were read. -/
theorem pickEvent_split {stale stale' : List StaleEventIndexObservation}
    {page : List ((List Char × ℕ) × Option (JsonText EventRecord))}
    (h : pickEvent type page stale = (stale', some (field, record))) :
    ∃ before m raw after, page = before ++ ((m, field), some raw) :: after ∧ raw.val = record ∧
      ∀ p ∈ before, ∀ e, p.2 = some e → ¬ (e.val.type = type ∧ e.val.Unconsumed) := by
  induction page generalizing stale with
  | nil => cases h
  | cons p page ih =>
    obtain ⟨⟨m, id⟩, r⟩ := p
    cases r with
    | none =>
      obtain ⟨before, m', raw, after, rfl, hraw, hstale⟩ := ih h
      refine ⟨((m, id), none) :: before, m', raw, after, rfl, hraw, ?_⟩
      exact forall_mem_cons.2 ⟨by simp, hstale⟩
    | some raw =>
      rw [pickEvent] at h
      split at h
      · rename_i hskip
        obtain ⟨before, m', raw', after, rfl, hraw, hstale⟩ := ih h
        refine ⟨((m, id), some raw) :: before, m', raw', after, rfl, hraw, ?_⟩
        refine forall_mem_cons.2 ⟨fun e he hfree => ?_, hstale⟩
        cases he
        rcases hskip with hother | hconsumed
        · exact hother hfree.1
        · rw [show raw.val.consumedByOrdinal = none from hfree.2] at hconsumed
          cases hconsumed
      · simp only [Prod.mk.injEq, some.injEq] at h
        obtain ⟨-, rfl, rfl⟩ := h
        exact ⟨[], m, raw, page, rfl, rfl, fun _ hp => absurd hp not_mem_nil⟩

/-- A page of events follows the page of the index. -/
theorem eventPage_split {members : List (List Char)} {m : List Char}
    {r : Option (JsonText EventRecord)}
    {before after : List ((List Char × ℕ) × Option (JsonText EventRecord))}
    (h : eventPage members i = before ++ ((m, field), r) :: after) :
    ∃ b a, members = b ++ m :: a ∧ eventIdFromIndexMember m = some field ∧
      r = i.events.lookup field ∧ ∀ m' ∈ b, ∀ id, eventIdFromIndexMember m' = some id →
        ((m', id), i.events.lookup id) ∈ before := by
  rw [eventPage_eq] at h
  obtain ⟨cb, crest, hcand, rfl, hrest⟩ := map_eq_append_iff.1 h
  obtain ⟨⟨m₀, id₀⟩, ca, rfl, hhead, -⟩ := map_eq_cons_iff.1 hrest
  obtain ⟨⟨rfl, rfl⟩, rfl⟩ := hhead
  obtain ⟨b, rest, rfl, hb, hrest'⟩ := filterMap_eq_append_iff.1 hcand
  obtain ⟨skipped, m', a, rfl, hskip, hm', -⟩ := filterMap_eq_cons_iff.1 hrest'
  obtain ⟨id', hid', heq⟩ := map_eq_some_iff.1 hm'
  cases heq
  refine ⟨b ++ skipped, a, by rw [append_assoc], hid', rfl, fun m'' hm'' id hid => ?_⟩
  have hsome : (eventIdFromIndexMember m'').map (m'', ·) = some (m'', id) := by rw [hid]; rfl
  refine mem_map.2 ⟨(m'', id), ?_, rfl⟩
  rcases mem_append.1 hm'' with hmem | hmem
  · rw [← hb]
    exact mem_filterMap.2 ⟨m'', hmem, hsome⟩
  · cases (hskip m'' hmem).symm.trans hsome

/-- A look at the index leads to the first unconsumed event of the type, as long as the
    events of then are unchanged when they are read. -/
theorem firstBuffered_of_pick {stale : List StaleEventIndexObservation} {limit : ℕ}
    (hinv : StoreInv cfg s) (hsame : EventsUnchanged s.inst s'.inst)
    (hpick : pickEvent type
      (eventPage (indexRange s.inst.eventIndex (eventTypeIndexPrefix type) limit) s'.inst)
      (malformedMembers (indexRange s.inst.eventIndex (eventTypeIndexPrefix type) limit)) =
        (stale, some (field, record))) :
    FirstBuffered s.inst type field ∧
      ∃ e, s.inst.events.lookup field = some e ∧ e.val = record := by
  have hev := hinv.events
  obtain ⟨before, m, raw, after, hpage, rfl, hstale⟩ := pickEvent_split hpick
  obtain ⟨b, a, hmembers, hid, hraw, hbefore⟩ := eventPage_split hpage
  -- the member is that of an unconsumed event of the type
  have hm : m ∈ indexRange s.inst.eventIndex (eventTypeIndexPrefix type) limit := by
    rw [hmembers]
    exact mem_append_right _ mem_cons_self
  obtain ⟨hlo, hhi⟩ := indexRange_mem hm
  have hin : m ∈ s.inst.eventIndex := mem_of_mem_indexRange hm
  obtain ⟨id, type', ⟨e, he, htype, hfree⟩, rfl⟩ := (hev.index m).1 hin
  obtain rfl := type_of_mem_range hlo hhi
  rw [eventIdFromIndexMember_member type' (hinv.event_lt he)] at hid
  obtain rfl := some.inj hid
  rw [(hsame id e he).1] at hraw
  cases hraw
  refine ⟨⟨⟨raw, he, htype, hfree⟩, fun id' hbuf => not_lt.1 fun hlt' => ?_⟩, raw, he, rfl⟩
  -- an earlier one would have come before it in the page
  obtain ⟨e', he', htype', hfree'⟩ := hbuf
  have hin' : eventTypeIndexMember type' id' ∈ s.inst.eventIndex :=
    (hev.index _).2 ⟨id', type', ⟨e', he', htype', hfree'⟩, rfl⟩
  have hmem := indexRange_before hmembers hin' (eventTypeIndexMember_mem_range type' id').1
    (eventTypeIndexMember_mem_range type' id').2
    (eventTypeIndexMember_lt type' hlt' (hinv.event_lt he))
  have hread := hbefore _ hmem id' (eventIdFromIndexMember_member type' (hinv.event_lt he'))
  rw [(hsame id' e' he').1] at hread
  exact hstale _ hread e' rfl ⟨htype', hfree'⟩

variable {req : StepRequest}

/-- The event that a wait has found is the first unconsumed one of its type at the time of
    its look at the index, the payload is its payload, and it is still unconsumed. -/
theorem Policy.Found.first {payload : Payload}
    (h : Policy.oneWait.Found cfg n (.registerWait req) req type field record payload s)
    (hc : Claimed req.runToken s) :
    (∃ l ∈ s.hist.lookups, l.token = req.runToken ∧ l.ordinal = req.ordinal ∧
      FirstBuffered l.seen type field ∧ l.seen.payloads.lookup (.event field) = some payload) ∧
    Buffered s.inst field type := by
  obtain ⟨s₁, s₂, s₃, members, stale, hinv, hused, hlook, rfl, h₁₂, hpick, h₂₃, hpay, h₃⟩ := h
  have hused₂ := h₁₂.used _ hused
  -- the claim was current from the look to the commit
  obtain ⟨hc₃, -, hkeep₃⟩ := h₃.claim _ (h₂₃.used _ hused₂) hc
  obtain ⟨hc₂, -, hkeep₂⟩ := h₂₃.claim _ hused₂ hc₃
  obtain ⟨⟨st, hst, -⟩, -, hkeep₁⟩ := h₁₂.claim _ hused hc₂
  have hsame₁ : EventsUnchanged s₁.inst s₂.inst := hkeep₁ req rfl rfl
  have hsame₂ : EventsUnchanged s₁.inst s₃.inst := hsame₁.trans (hkeep₂ req rfl rfl)
  have hsame₃ : EventsUnchanged s₁.inst s.inst := hsame₂.trans (hkeep₃ req rfl rfl)
  obtain ⟨hfirst, e, he, rfl⟩ := firstBuffered_of_pick hinv hsame₁ hpick
  obtain ⟨-, -, href⟩ := hinv.events.numbered st field e hst he
  refine ⟨⟨_, hlook, rfl, rfl, hfirst, ?_⟩, ?_⟩
  · rw [href, (hsame₂ field e he).2] at hpay
    exact hpay
  · obtain ⟨e', he', htype, hfree⟩ := hfirst.1
    exact ⟨e', (hsame₃ field e' he').1, htype, hfree⟩

/-! ## All consumptions -/

/-- What is true of the consumptions of the history: they are those that the events have
    recorded, no event is consumed twice, and each wait got the first event of its type. -/
structure Delivered (db : Db) : Prop where
  recorded : ∀ id o, (∃ e, db.inst.events.lookup id = some e ∧ e.val.consumedByOrdinal = some o) ↔
    ∃ c ∈ db.hist.consumptions, c.event = id ∧ c.ordinal = o
  once : (db.hist.consumptions.map Consumption.event).Nodup
  first : ∀ c ∈ db.hist.consumptions, ∃ l ∈ db.hist.lookups, l.token = c.token ∧
    l.ordinal = c.ordinal ∧ ∃ type payload, c.type = some type ∧ c.output = some payload ∧
      FirstBuffered l.seen type c.event ∧ l.seen.payloads.lookup (.event c.event) = some payload

theorem inlineStepPayload_cases (p : Payload) :
    inlineStepPayload p = none ∨ inlineStepPayload p = some p := by
  rw [inlineStepPayload]
  split_ifs <;> simp

/-- A wait that is completed with a payload stores that payload. -/
theorem completedWaitCommit_outcome (req : StepRequest) (event : Option (ℕ × EventRecord))
    (output : Payload) (now : ℕ) :
    (completedWaitCommit cfg req event output now).outcome = some output := by
  rcases inlineStepPayload_cases output with h | h <;>
    simp [StepRecordCommit.outcome, completedWaitCommit, completedWaitRecord,
      Service.stepRecordJson, h]

theorem waitEventType_ok (h : waitEventType req = .ok type) :
    req.config.eventType = some type := by
  rw [waitEventType] at h
  split at h
  · cases h
  · rename_i type' htype
    split at h
    · cases h
    · rw [htype, Except.ok.inj h]

/-- A script that neither deletes the events nor consumes one adds no consumption. -/
theorem consumptionsAfter_eq (before : List Consumption)
    (hdel : ¬ c.deletes y) (hcons : ¬ c.consumes y) : consumptionsAfter before c y = before := by
  cases c with
  | commitStepRecord g t now o a =>
    rw [consumptionsAfter]
    split
    · rename_i event json hev
      refine if_neg fun hy => hcons ⟨hy, ?_⟩
      rw [hev]
      exact some_ne_none _
    · rfl
  | _ => exact if_neg hdel

theorem consumptionsAfter_deletes (before : List Consumption)
    (hdel : c.deletes y) : consumptionsAfter before c y = [] := by
  cases c <;> first | exact if_pos hdel | exact hdel.elim

namespace Delivered

/-- Once everything is deleted there are no consumptions. -/
theorem of_deleted (hevents : s.inst.events = ∅) (hcons : s.hist.consumptions = []) :
    Delivered s := by
  refine ⟨fun id o => ⟨?_, ?_⟩, ?_, fun c hc => ?_⟩
  · rintro ⟨e, he, -⟩
    rw [hevents] at he
    cases he
  · rintro ⟨c, hc, -⟩
    rw [hcons] at hc
    cases hc
  · rw [hcons]
    exact nodup_nil
  · rw [hcons] at hc
    cases hc

theorem of_unchanged (h : Delivered s) (hsame : EventsUnchanged s.inst s'.inst)
    (hnew : OnlyNewEvents s.inst s'.inst) (hcons : s'.hist.consumptions = s.hist.consumptions)
    (hlook : ∀ l ∈ s.hist.lookups, l ∈ s'.hist.lookups) : Delivered s' := by
  refine ⟨fun id o => ?_, by rw [hcons]; exact h.once, fun c hc => ?_⟩
  · rw [hcons, ← h.recorded]
    constructor
    · rintro ⟨e, he, ho⟩
      rcases hnew id e he with he' | hfree
      · exact ⟨e, he', ho⟩
      · cases (show e.val.consumedByOrdinal = none from hfree).symm.trans ho
    · rintro ⟨e, he, ho⟩
      exact ⟨e, (hsame id e he).1, ho⟩
  · rw [hcons] at hc
    obtain ⟨l, hl, hrest⟩ := h.first c hc
    exact ⟨l, hlook l hl, hrest⟩

/-- A wait consumes an event. -/
theorem consume {req : StepRequest} {field : ℕ} {payload : Payload} {json : JsonText EventRecord}
    (h : Delivered s) (hbuf : Buffered s.inst field type)
    (hused : json.val.consumedByOrdinal = some req.ordinal)
    (hlook : ∃ l ∈ s.hist.lookups, l.token = req.runToken ∧ l.ordinal = req.ordinal ∧
      FirstBuffered l.seen type field ∧ l.seen.payloads.lookup (.event field) = some payload)
    (hevents : s'.inst.events = s.inst.events.insert field json)
    (hcons : s'.hist.consumptions = ⟨req.runToken, req.ordinal, some type, field, some payload⟩ ::
      s.hist.consumptions)
    (hlooks : s'.hist.lookups = s.hist.lookups) : Delivered s' := by
  -- the event has not been consumed before
  have hfresh : ∀ c ∈ s.hist.consumptions, c.event ≠ field := by
    rintro c hc rfl
    obtain ⟨e, he, ho⟩ := (h.recorded c.event c.ordinal).2 ⟨c, hc, rfl, rfl⟩
    obtain ⟨e', he', -, hfree⟩ := hbuf
    cases he.symm.trans he'
    cases (show e.val.consumedByOrdinal = none from hfree).symm.trans ho
  refine ⟨fun id o => ?_, ?_, ?_⟩
  · rw [hevents, hcons, Hash.lookup_insert_ite]
    simp only [exists_mem_cons_iff]
    split_ifs with hid
    · constructor
      · rintro ⟨e, he, ho⟩
        cases he
        exact .inl ⟨hid.symm, some.inj (hused.symm.trans ho)⟩
      · rintro (⟨-, ho⟩ | ⟨c, hc, hev, -⟩)
        · exact ⟨json, rfl, by rw [hused]; exact congrArg some ho⟩
        · exact absurd (hev.trans hid) (hfresh c hc)
    · rw [h.recorded]
      exact ⟨.inr, fun hor => hor.resolve_left fun heq => hid heq.1.symm⟩
  · rw [hcons, map_cons, nodup_cons]
    refine ⟨fun hmem => ?_, h.once⟩
    obtain ⟨c, hc, heq⟩ := mem_map.1 hmem
    exact hfresh c hc heq
  · rw [hcons, hlooks]
    refine forall_mem_cons.2 ⟨?_, h.first⟩
    obtain ⟨l, hl, htok, hord, hfirst, hpay⟩ := hlook
    exact ⟨l, hl, htok, hord, type, payload, rfl, rfl, hfirst, hpay⟩

theorem guar (h : Delivered s) (hinv : StoreInv cfg s)
    (hg : Policy.oneWait.Guar cfg n k s s') : Delivered s' := by
  have hlooks := hg.lookups
  rcases hg with rfl | ⟨c, y, inst', hcalls, hobs, heff, rfl⟩
  · exact h
  rcases heff.events_cases hcalls hinv.events with
    hdel | ⟨g, t, now, o, a, field, json, rfl, hy, ha, hevents⟩ | ⟨hsame, hnew, hcons⟩
  · exact of_deleted (heff.deleted hdel).1 (consumptionsAfter_deletes _ hdel)
  · obtain ⟨req, type, record, payload, now', rfl, rfl, rfl, htype, rfl, hfound⟩ :=
      hobs.2 field json ha
    have hc : Claimed req.runToken s := by
      cases heff with
      | idle hidle => exact absurd hy hidle
      | recorded st hf _ =>
        obtain ⟨hst, htok, -⟩ := claimFence_ok hf
        exact ⟨st, hst, htok⟩
    obtain ⟨hlook, hbuf⟩ := hfound.first hc
    obtain ⟨-, rfl⟩ := Prod.mk.inj (some.inj ha)
    refine h.consume hbuf ?_ hlook hevents ?_ rfl
    · rfl
    have hcons : (s.after (.commitStepRecord g req.runToken now req.ordinal
        (completedWaitCommit cfg req (some (field, record)) payload now')) y
          inst').hist.consumptions = ⟨req.runToken, req.ordinal, req.config.eventType, field,
          (completedWaitCommit cfg req (some (field, record)) payload now').outcome⟩ ::
            s.hist.consumptions := if_pos hy
    rw [hcons, completedWaitCommit_outcome, waitEventType_ok htype]
  · by_cases hdel : c.deletes y
    · exact of_deleted (heff.deleted hdel).1 (consumptionsAfter_deletes _ hdel)
    · exact h.of_unchanged hsame hnew (consumptionsAfter_eq _ hdel hcons) hlooks

end Delivered

/-- Events are kept until they are deleted with the instance or by a restart. -/
theorem step_eventsKept {ok : ServiceWorld → Label api Kind Env → Prop} {w w' : ServiceWorld}
    {l : Label api Kind Env} (h : ReachableWhen cfg ok w) (hs : (workflows cfg).Step w l w')
    (hepoch : w'.store.hist.epoch = w.store.hist.epoch) :
    EventsKept w.store.inst w'.store.inst := by
  cases hs with
  | spawn | stop => exact .of_eq rfl
  | env e he =>
    cases e with
    | tick t => rw [he.2]; exact .of_eq rfl
    | othersReady b => rw [show _ = _ from he]; exact .of_eq rfl
  | @call j k c next x db hj hc =>
    have hg := (Policy.free_sound cfg ok).relyGuarantee.call_guar h hj hc
    refine (Policy.Guar.eventsKept_or hg (storeInv h)).resolve_right fun hdel => ?_
    have hne : db.hist.epoch = w.store.hist.epoch + 1 := hdel.1
    rw [show db.hist.epoch = w.store.hist.epoch from hepoch] at hne
    omega

/-- A wait of the run with token `1` for events of type `a`, as the step with ordinal `3`. -/
def waitRequest : StepRequest where
  generation := 1
  createdAtMs := 100
  runToken := 1
  ordinal := 3
  stepName := "wait"
  nameCount := 1
  dependencies := []
  attempt := none
  nonRetryable := false
  config := ⟨0, 20, none, none, some [97]⟩
  output := .null
  error := .null
  dueAtMs := none

/-- An instance that was created, claimed by a dispatch task and sent an event. -/
noncomputable def eventBufferedWorld : ServiceWorld :=
  ((ServiceWorld.initial.alone .standard 0 (.create ⟨.null, 1000, 1000⟩) 10 100 7 .malformed).alone
    .standard 1 .dispatch 3 200 7 .malformed).alone
    .standard 2 (.sendEvent (some [97]) examplePayload) 10 300 7 .malformed

/-- Then a wait of its run took the event. -/
noncomputable def eventTakenWorld : ServiceWorld :=
  eventBufferedWorld.alone .standard 3 (.registerWait waitRequest) 10 400 7 .malformed

theorem eventTakenWorld_reachable : ReachableWhen .standard OneWaitPerRun eventTakenWorld := by
  have hcalls : ∀ w j c x, OneWaitPerRun w (.call j c x) := fun _ _ _ _ => trivial
  have h₀ := initial .standard OneWaitPerRun
  have h₁ := alone hcalls h₀ (i := 0) rfl (.create ⟨.null, 1000, 1000⟩) trivial
    10 100 7 .malformed
  have h₂ := alone hcalls h₁ (i := 1) rfl .dispatch trivial 3 200 7 .malformed
  have h₃ := alone hcalls h₂ (i := 2) rfl
    (.sendEvent (some [97]) examplePayload) trivial 10 300 7 .malformed
  refine alone hcalls h₃ (i := 3) rfl (.registerWait waitRequest)
    (fun j p req' hp _ hk => ?_) 10 400 7 .malformed
  -- no other wait has been started
  rcases World.setProc_cases hp with ⟨-, rfl⟩ | ⟨-, hp⟩
  · cases hk
  rcases World.setProc_cases hp with ⟨-, rfl⟩ | ⟨-, hp⟩
  · cases hk
  rcases World.setProc_cases hp with ⟨-, rfl⟩ | ⟨-, hp⟩
  · cases hk
  · cases hp

end Wdl.Workflow
