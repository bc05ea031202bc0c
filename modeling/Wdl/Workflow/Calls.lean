import Wdl.Workflow.Effects
import Wdl.Workflow.System

/-!
# The arguments that the scripts are called with

The scripts trust their arguments: that a commit stores the record it says it
stores, that the stale members handed to a cleanup were seen to be stale, and so
on. `Calls` says, for each script, which processes call it and with what arguments,
and `body_calls` that no process calls anything else.

It is a fact about the programs alone. All it takes from the store is that a page
of the index is a page of the range that was asked for (`Answers`).
-/

namespace Wdl.Workflow

open Prog.Emits List Api ServiceM

/-! ## Answers -/

/-- What is known of the answer to a call without looking at the store. -/
def Answers : (c : Call) → api.Ans c → Prop
  | .redis (.scanEventIndex _ _ pre), some (members : List (List Char)) =>
    ∀ m ∈ members, pre ≤ m ∧ m ≤ pre ++ ['~']
  | _, _ => True

/-! ## Calls -/

/-- The script is fenced by the claim and the step of the request. -/
def StepRequest.Fences (req : StepRequest) (generation token ordinal : ℕ) : Prop :=
  generation = req.generation ∧ token = req.runToken ∧ ordinal = req.ordinal

/-- The commits of a sleep: a completed record without a due time, or a waiting one
    with its due time. -/
def SleepCommit (cfg : Service) (req : StepRequest) (a : StepRecordCommit) : Prop :=
  ∃ kind record due, a = sleepCommit cfg record due ∧ req.matches record kind = true ∧
    (kind = .sleep ∨ kind = .sleepUntil) ∧
    ((due = none ∧ ∃ d now, record = completedSleepRecord req kind d now) ∨
      ∃ d, due = some d ∧ record.status = .waiting ∧ record.dueAtMs = some d)

/-- The commits that register a wait. -/
def WaitingCommit (cfg : Service) (req : StepRequest) (a : StepRecordCommit) : Prop :=
  ∃ record type, a = waitingCommit cfg record record.dueAtMs type ∧
    waitEventType req = .ok type ∧ req.matches record .waitForEvent = true ∧
    record.status = .waiting

/-- The commits that complete a wait, with an unconsumed event of its type or without. -/
def CompletedCommit (cfg : Service) (req : StepRequest) (a : StepRecordCommit) : Prop :=
  ∃ event output now type, a = completedWaitCommit cfg req event output now ∧
    waitEventType req = .ok type ∧
    ∀ field record, event = some (field, record) → record.type = type ∧ record.Unconsumed

/-- What was observed of a member of the index, by a wait for a type. -/
def StaleEventIndexObservation.Sound (type : EventType) (o : StaleEventIndexObservation) : Prop :=
  eventTypeIndexPrefix type ≤ o.member ∧ o.member ≤ eventTypeIndexPrefix type ++ ['~'] ∧
    match o.record with
    | .malformedMember => eventIdFromIndexMember o.member = none
    | .missing field => eventIdFromIndexMember o.member = some field
    | .observed field raw => eventIdFromIndexMember o.member = some field ∧
        (raw.val.type ≠ type ∨ raw.val.consumedByOrdinal ≠ none)

/-- The process creates an instance. -/
def Kind.Creates : Kind → Prop
  | .create _ | .createBatch _ => True
  | _ => False

/-- The process serves a request of a tenant. -/
def Kind.Requests : Kind → Prop
  | .status | .create _ | .createBatch _ | .sendEvent _ _ | .pause | .resume | .terminate
  | .restart => True
  | _ => False

theorem Kind.Creates.requests {k : Kind} (h : k.Creates) : k.Requests := by
  cases k <;> trivial

/-- Which scripts the process with number `i` calls, and with what arguments. -/
def Calls (cfg : Service) (i : ℕ) (k : Kind) : Script → Prop
  | .claimRun status _ token expiresAt now _ =>
    k = .dispatch ∧ token = i ∧ expiresAt = now + cfg.runLeaseMs ∧
      (status = .queued ∨ status = .waiting)
  | .releaseRun _ token status => k = .dispatch ∧ token = i ∧ (status = .queued ∨ status = .waiting)
  | .clearSuspendedRun _ token => k = .dispatch ∧ token = i
  | .commitRuntimeTerminal _ token _ _ _ _ _ => k = .dispatch ∧ token = i
  | .commitStepSuccess g t now o ref json record summary =>
    ∃ req attempt, k = .commitStepSuccess req ∧ StepRequest.Fences req g t o ∧
      record = cfg.stepRecordJson (successRecord req attempt now) ∧
      ref = (successRecord req attempt now).outputRef ∧ json = req.output ∧
      summary = cfg.summaryBytes (successRecord req attempt now)
  | .commitStepError g t now o ref json record summary due =>
    ∃ req attempt, k = .commitStepError req ∧ StepRequest.Fences req g t o ∧
      record = cfg.stepRecordJson (errorRecord req attempt now due) ∧
      ref = (errorRecord req attempt now due).errorRef ∧ json = req.error ∧
      summary = cfg.summaryBytes (errorRecord req attempt now due)
  | .commitStepRecord g t _ o a =>
    ∃ req, StepRequest.Fences req g t o ∧
      ((k = .registerSleep req ∧ SleepCommit cfg req a) ∨
        (k = .registerWait req ∧ (WaitingCommit cfg req a ∨ CompletedCommit cfg req a)))
  | .restoreWaitingDue g t _ _ =>
    ∃ req, k = .claimStep req ∧ g = req.generation ∧ t = req.runToken
  | .sendEvent _ type pre _ _ _ => k.Requests ∧ pre = eventTypeIndexPrefix type
  | .cleanupStaleEventIndex _ _ _ _ observations =>
    ∃ req type, k = .registerWait req ∧ waitEventType req = .ok type ∧
      ∀ o ∈ observations, o.Sound type
  | .scanEventIndex t o pre =>
    ∃ req type, k = .registerWait req ∧ t = req.runToken ∧ o = req.ordinal ∧
      waitEventType req = .ok type ∧ pre = eventTypeIndexPrefix type
  | .createInstance a => k.Creates ∧ a.pendingToken = i ∧ a.params.bytes ≤ cfg.paramsLimit
  | .finalizeCreateInstance token _ => k.Creates ∧ token = i
  | .cleanupPendingCreate _ _ => k.Requests
  | .pause g g' _ => k = .pause ∧ g' = g + 1
  | .resume g g' _ => k = .resume ∧ g' = g + 1
  | .terminate g g' _ _ _ => k = .terminate ∧ g' = g + 1
  | .restart _ g g' _ _ _ _ params => k = .restart ∧ g' = g + 1 ∧ params.bytes ≤ cfg.paramsLimit
  | .removeRetentionToken _ seen =>
    ∀ status g c, seen = some (status, g, c) → status.terminal = false
  | .cleanupRetention _ _ _ _ => k = .retention
  | _ => True

/-- The calls whose script, if there is one, is among some scripts. -/
def OnScripts (Q : Script → Prop) : Call → Prop
  | .redis c => Q c
  | _ => True

/-! ## The programs make no other calls -/

variable {cfg : Service} {i : ℕ} {k : Kind} {Q : Script → Prop} {α β : Type}

/-- The program only calls scripts among some. -/
abbrev Makes (Q : Script → Prop) (p : ServiceM α) : Prop := p.Emits Answers (OnScripts Q)

theorem makes_mono {Q Q' : Script → Prop} {p : ServiceM α} (h : Makes Q p)
    (hQ : ∀ c, Q c → Q' c) : Makes Q' p := by
  refine mono h fun c hc => ?_
  cases c with
  | redis c => exact hQ c hc
  | _ => trivial

theorem Makes.now_bind {f : ℕ → ServiceM β} (h : ∀ t, Makes Q (f t)) : Makes Q (now.bind f) :=
  ⟨trivial, fun t _ => h t⟩

variable {c : Script}

theorem Makes.eval_bind {f : c.Reply → ServiceM β} (hc : Q c)
    (hf : ∀ x, Answers (.redis c) (some x) → Makes Q (f x)) : Makes Q ((eval c).bind f) := by
  refine ⟨hc, fun x hx => ?_⟩
  cases x with
  | none => trivial
  | some x => exact hf x hx

theorem Makes.eval (h : Q c) : Makes Q (eval c) := ⟨h, fun x _ => by cases x <;> trivial⟩

variable {q : ControlQuery}

theorem Makes.askControl_bind {f : q.Reply → ServiceM β} (h : ∀ x, Makes Q (f x)) :
    Makes Q ((askControl q).bind f) := by
  refine ⟨trivial, fun x _ => ?_⟩
  cases x with
  | error e => trivial
  | ok x => exact h x

theorem makes_askControl : Makes Q (askControl q) :=
  ⟨trivial, fun x _ => by cases x <;> trivial⟩

theorem Makes.dispatchRuntime_bind {f : RuntimeAnswer → ServiceM β} (h : ∀ x, Makes Q (f x)) :
    Makes Q (dispatchRuntime.bind f) := ⟨trivial, fun x _ => h x⟩

variable {e : Except WorkflowError α}

theorem Makes.ofExcept_bind {f : α → ServiceM β} (h : ∀ a, e = .ok a → Makes Q (f a)) :
    Makes Q ((ofExcept e).bind f) := by
  cases e with
  | error e => trivial
  | ok a => exact h a rfl

theorem makes_ofExcept : Makes Q (ofExcept e) := by
  cases e <;> trivial

theorem makes_claimed {e : Except StepCode α} : Makes Q (claimed e) := by
  cases e <;> trivial

theorem resultJson_ok {p q : Payload} {kind : String} (h : resultJson cfg p kind = .ok q) :
    q = p := by
  unfold resultJson at h
  split at h
  · cases h
  · exact (Except.ok.inj h).symm

/-! ### Reads -/

theorem makes_readStepRecordForClaim (req : StepRequest) :
    Makes (Calls cfg i k) (readStepRecordForClaim req) :=
  .now_bind fun _ => .eval_bind trivial fun _ _ => makes_claimed

/-- The scripts that only read. -/
def Script.reads : Script → Prop
  | .readState | .readReadyStateAndParams | .readPayload _ | .readStepRecord ..
  | .readStepPayload .. | .scanEventIndex .. | .readEvents _ | .scanDue _ | .scanRetention _ => True
  | _ => False

/-- A script that only reads answers from the instance, and leaves it as it is. -/
theorem Script.exec_of_reads {c : Script} {y : c.Reply} {inst inst' : Instance}
    (h : c.exec cfg inst y inst') (hc : c.reads) : y = (c.run cfg inst).1 ∧ inst' = inst := by
  cases c <;> first | exact hc.elim | exact Prod.mk.inj (h.resolve_right fun he => he.1)

theorem storedOutcome_reads (req : StepRequest) (inline : Option Payload)
    (ref : Option PayloadRef) (noRef what : String) :
    Makes (fun c => c.reads ∧ Calls cfg i k c) (storedOutcome req inline ref noRef what) := by
  unfold storedOutcome
  split
  · trivial
  · split
    · trivial
    · refine bind ?_ fun raw => ?_
      · exact Makes.now_bind fun _ =>
          .eval_bind ⟨trivial, trivial⟩ fun _ _ => makes_claimed
      · split <;> trivial

theorem makes_storedOutcome (req : StepRequest) (inline : Option Payload)
    (ref : Option PayloadRef) (noRef what : String) :
    Makes (Calls cfg i k) (storedOutcome req inline ref noRef what) :=
  makes_mono (storedOutcome_reads req inline ref noRef what) fun _ h => h.2

/-! ### Steps -/

theorem claimStep_calls (req : StepRequest) :
    Makes (Calls cfg i (.claimStep req)) (Api.claimStep req) := by
  refine .ofExcept_bind fun _ _ => (makes_readStepRecordForClaim req).bind fun raw => ?_
  cases raw with
  | none => trivial
  | some raw =>
    refine Makes.ofExcept_bind fun _ _ => ?_
    unfold answerFromRecord
    split
    · exact (makes_storedOutcome ..).bind fun _ => trivial
    · exact (makes_storedOutcome ..).bind fun _ => trivial
    · split
      · trivial
      · refine .now_bind fun t => ?_
        split
        · refine bind ?_ fun _ => trivial
          refine Makes.now_bind fun _ => .eval_bind ⟨req, rfl, rfl, rfl⟩ fun code _ => ?_
          cases code <;> trivial
        · trivial

theorem commitStepSuccess_calls (req : StepRequest) :
    Makes (Calls cfg i (.commitStepSuccess req)) (Api.commitStepSuccess cfg req) := by
  refine .ofExcept_bind fun _ _ => .ofExcept_bind fun attempt _ =>
    .ofExcept_bind fun json hjson => .now_bind fun t => .eval_bind ?_ ?_
  · refine ⟨req, attempt, rfl, ⟨rfl, rfl, rfl⟩, rfl, rfl, ?_, rfl⟩
    exact resultJson_ok hjson
  · exact fun _ _ => .ofExcept_bind fun _ _ => trivial

theorem commitStepError_calls (req : StepRequest) :
    Makes (Calls cfg i (.commitStepError req)) (Api.commitStepError cfg req) := by
  refine .ofExcept_bind fun _ _ => .ofExcept_bind fun attempt _ =>
    .ofExcept_bind fun policy _ => .ofExcept_bind fun json hjson =>
    .now_bind fun t => .eval_bind ?_ ?_
  · refine ⟨req, attempt, rfl, ⟨rfl, rfl, rfl⟩, rfl, rfl, ?_, rfl⟩
    exact resultJson_ok hjson
  · exact fun _ _ => .ofExcept_bind fun _ _ => trivial

/-! ### Sleeps -/

theorem record_matches (req : StepRequest) (kind : StepKind) (status : StepStatus) (attempt : ℕ) :
    req.matches (req.record kind status attempt) kind = true := by
  simp [StepRequest.matches, StepRequest.record]

variable {req : StepRequest} {kind : StepKind}

theorem sleepKind_ok (h : sleepKind req = .ok kind) :
    kind = .sleep ∨ kind = .sleepUntil := by
  unfold sleepKind at h
  split at h
  · exact .inl (Except.ok.inj h).symm
  · exact .inr (Except.ok.inj h).symm
  · cases h

variable {record : StepRecord}

theorem verifyStepRecord_ok {u : Unit}
    (h : verifyStepRecord req record kind = .ok u) : req.matches record kind = true := by
  unfold verifyStepRecord at h
  split at h
  · assumption
  · cases h

variable {a : StepRecordCommit}

theorem commitStepRecord_calls
    (h : ∀ now, Calls cfg i k (.commitStepRecord req.generation req.runToken now req.ordinal a)) :
    Makes (Calls cfg i k) (Api.commitStepRecord cfg req a) :=
  .now_bind fun t => .eval_bind (h t) fun _ _ => makes_ofExcept

theorem sleep_calls {b : StepAnswer} (h : SleepCommit cfg req a) :
    Makes (Calls cfg i (.registerSleep req))
      ((Api.commitStepRecord cfg req a).bind fun _ => .ret b) :=
  (commitStepRecord_calls fun _ => ⟨req, ⟨rfl, rfl, rfl⟩, .inl ⟨rfl, h⟩⟩).bind fun _ => trivial

theorem registerSleep_calls (req : StepRequest) :
    Makes (Calls cfg i (.registerSleep req)) (Api.registerSleep cfg req) := by
  refine .ofExcept_bind fun _ _ => .ofExcept_bind fun kind hkind =>
    .ofExcept_bind fun due _ => (makes_readStepRecordForClaim req).bind fun raw =>
    Makes.now_bind fun t => ?_
  have hk := sleepKind_ok hkind
  have complete :
    ∀ due, Makes (Calls cfg i (.registerSleep req)) (completeSleep cfg req kind due) :=
    fun due => .now_bind fun t => sleep_calls
      ⟨kind, _, none, rfl, record_matches req kind .completed 1, hk, .inl ⟨rfl, _, _, rfl⟩⟩
  cases raw with
  | none =>
    dsimp only
    split
    · exact complete due
    · exact sleep_calls
        ⟨kind, _, some due, rfl, record_matches req kind .waiting 1, hk, .inr ⟨due, rfl, rfl, rfl⟩⟩
  | some raw =>
    refine .ofExcept_bind fun _ hv => ?_
    have hm := verifyStepRecord_ok hv
    split
    · trivial
    · rename_i hst
      split
      · trivial
      · rename_i stored hdue
        split
        · exact sleep_calls ⟨kind, raw.val, some stored, rfl, hm, hk, .inr ⟨stored, rfl, hst, hdue⟩⟩
        · exact complete stored
    · trivial

/-! ### Waits -/

variable {members : List (List Char)}

theorem eventCandidates_mem {m : List Char} {id : ℕ}
    (h : (m, id) ∈ eventCandidates members) :
    m ∈ members ∧ eventIdFromIndexMember m = some id := by
  obtain ⟨m', hm', he⟩ := mem_filterMap.1 h
  obtain ⟨id', hid, he⟩ := Option.map_eq_some_iff.1 he
  cases he
  exact ⟨hm', hid⟩

variable {type : EventType}

theorem malformedMembers_sound
    (h : ∀ m ∈ members, eventTypeIndexPrefix type ≤ m ∧ m ≤ eventTypeIndexPrefix type ++ ['~']) :
    ∀ o ∈ malformedMembers members, o.Sound type := by
  intro o ho
  obtain ⟨m, hm, he⟩ := mem_filterMap.1 ho
  split at he
  · rename_i hnone
    cases he
    exact ⟨(h m hm).1, (h m hm).2, Option.isNone_iff_eq_none.1 hnone⟩
  · cases he

/-- The members that are passed over were seen to be stale, and the event that is
    picked is an unconsumed one of the type. -/
theorem pickEvent_sound {page : List ((List Char × ℕ) × Option (JsonText EventRecord))}
    {stale : List StaleEventIndexObservation}
    (hpage : ∀ m id r, ((m, id), r) ∈ page → eventTypeIndexPrefix type ≤ m ∧
      m ≤ eventTypeIndexPrefix type ++ ['~'] ∧ eventIdFromIndexMember m = some id)
    (hstale : ∀ o ∈ stale, o.Sound type) :
    (∀ o ∈ (pickEvent type page stale).1, o.Sound type) ∧
      ∀ field record, (pickEvent type page stale).2 = some (field, record) →
        record.type = type ∧ record.Unconsumed ∧
          ∃ m raw, ((m, field), some raw) ∈ page ∧ raw.val = record := by
  induction page generalizing stale with
  | nil => exact ⟨hstale, nofun⟩
  | cons head rest ih =>
    obtain ⟨⟨m, id⟩, r⟩ := head
    have hhead := hpage m id r mem_cons_self
    have hrest := fun m id r h => hpage m id r (mem_cons_of_mem _ h)
    -- the walk goes on past a stale member
    have next : ∀ o : StaleEventIndexObservation, o.Sound type →
        (∀ o' ∈ (pickEvent type rest (stale ++ [o])).1, o'.Sound type) ∧
          ∀ field record, (pickEvent type rest (stale ++ [o])).2 = some (field, record) →
            record.type = type ∧ record.Unconsumed ∧
              ∃ m' raw, ((m', field), some raw) ∈ ((m, id), r) :: rest ∧ raw.val = record := by
      intro o ho
      have hstale' : ∀ o' ∈ stale ++ [o], o'.Sound type := by
        intro o' ho'
        rcases mem_append.1 ho' with ho' | ho'
        · exact hstale o' ho'
        · rw [mem_singleton.1 ho']
          exact ho
      obtain ⟨h1, h2⟩ := ih hrest hstale'
      refine ⟨h1, fun field record h => ?_⟩
      obtain ⟨ht, hu, m', raw, hmem, hval⟩ := h2 field record h
      exact ⟨ht, hu, m', raw, mem_cons_of_mem _ hmem, hval⟩
    cases r with
    | none => exact next ⟨m, .missing id⟩ hhead
    | some raw =>
      unfold pickEvent
      split
      · rename_i hbad
        refine next ⟨m, .observed id raw⟩ ⟨hhead.1, hhead.2.1, hhead.2.2, ?_⟩
        rcases hbad with hbad | hbad
        · exact .inl hbad
        · exact .inr (Option.isSome_iff_ne_none.1 hbad)
      · rename_i hgood
        push Not at hgood
        refine ⟨hstale, fun field record h => ?_⟩
        obtain ⟨rfl, rfl⟩ := Prod.mk.inj (Option.some.inj h)
        refine ⟨hgood.1, ?_, m, raw, mem_cons_self, rfl⟩
        exact Option.not_isSome_iff_eq_none.1 hgood.2

/-- A page of the index with the records of its events. -/
theorem page_mem
    (h : ∀ m ∈ members, eventTypeIndexPrefix type ≤ m ∧ m ≤ eventTypeIndexPrefix type ++ ['~'])
    (raw : List (Option (JsonText EventRecord))) :
    ∀ m id r, ((m, id), r) ∈ (eventCandidates members).zip raw → eventTypeIndexPrefix type ≤ m ∧
      m ≤ eventTypeIndexPrefix type ++ ['~'] ∧ eventIdFromIndexMember m = some id := by
  intro m id r hmem
  obtain ⟨hm, hid⟩ := eventCandidates_mem (of_mem_zip hmem).1
  exact ⟨(h m hm).1, (h m hm).2, hid⟩

section

variable (htype : waitEventType req = .ok type)

include htype

theorem cleanupStale_calls {observations : List StaleEventIndexObservation}
    (h : ∀ o ∈ observations, o.Sound type) :
    Makes (Calls cfg i (.registerWait req))
      (cleanupStaleEventIndexMembers cfg req observations) := by
  unfold cleanupStaleEventIndexMembers
  split
  · trivial
  · exact .now_bind fun t => .eval_bind ⟨req, type, rfl, htype, h⟩
      fun _ _ => makes_ofExcept

/-- A program that looks for an event and goes on with it makes the calls of the wait,
    if it does so with every unconsumed event of the type. -/
theorem findBufferedEventFrom_calls {f : Option (ℕ × EventRecord × Payload) → ServiceM β}
    (hnone : Makes (Calls cfg i (.registerWait req)) (f none))
    (hsome : ∀ field record payload, record.type = type → record.Unconsumed →
      Makes (Calls cfg i (.registerWait req)) (f (some (field, record, payload))))
    (pages staleSeen : ℕ) :
    Makes (Calls cfg i (.registerWait req))
      ((findBufferedEventFrom cfg req type pages staleSeen).bind f) := by
  induction pages generalizing staleSeen with
  | zero => trivial
  | succ pages ih =>
    rw [findBufferedEventFrom, Prog.bind_eq, Prog.bind_assoc]
    refine .eval_bind ⟨req, type, rfl, rfl, rfl, htype, rfl⟩ fun members hmembers => ?_
    have hrange : ∀ m ∈ (members : List (List Char)), eventTypeIndexPrefix type ≤ m ∧
        m ≤ eventTypeIndexPrefix type ++ ['~'] := hmembers
    split
    · exact hnone
    · split
      · rw [Prog.bind_eq, Prog.bind_assoc]
        refine (cleanupStale_calls htype (malformedMembers_sound hrange)).bind fun _ => ?_
        split
        · trivial
        · exact ih _
      · rw [Prog.bind_eq, Prog.bind_assoc]
        refine .eval_bind trivial fun raw _ => ?_
        have hpick := pickEvent_sound (page_mem hrange raw) (malformedMembers_sound hrange)
        split
        · rename_i stale field record hp
          rw [hp] at hpick
          obtain ⟨ht, hu, -⟩ := hpick.2 field record rfl
          rw [Prog.bind_eq, Prog.bind_assoc]
          refine .eval_bind trivial fun payload _ => ?_
          cases payload with
          | none => trivial
          | some payload =>
            dsimp only
            rw [Prog.bind_eq, Prog.bind_assoc]
            exact (cleanupStale_calls htype hpick.1).bind fun _ => hsome field record payload ht hu
        · rename_i stale hp
          rw [hp] at hpick
          rw [Prog.bind_eq, Prog.bind_assoc]
          refine (cleanupStale_calls htype hpick.1).bind fun _ => ?_
          split
          · trivial
          · exact ih _

theorem completeWait_calls {event : Option (ℕ × EventRecord)}
    (output : Payload)
    (h : ∀ field record, event = some (field, record) → record.type = type ∧ record.Unconsumed) :
    Makes (Calls cfg i (.registerWait req)) (completeWaitWithPayload cfg req event output) := by
  refine .now_bind fun t => .ofExcept_bind fun json _ => ?_
  refine bind (commitStepRecord_calls fun _ => ?_) fun _ => trivial
  exact ⟨req, ⟨rfl, rfl, rfl⟩, .inr ⟨rfl, .inr ⟨event, json, t, type, rfl, htype, h⟩⟩⟩

theorem findAndComplete_calls {otherwise : ServiceM StepAnswer}
    (h : Makes (Calls cfg i (.registerWait req)) otherwise) :
    Makes (Calls cfg i (.registerWait req))
      ((findBufferedEvent cfg req type).bind fun found => completeOr cfg req found otherwise) := by
  refine findBufferedEventFrom_calls htype h (fun field record payload ht hu => ?_) _ _
  refine completeWait_calls htype payload fun field' record' he => ?_
  obtain ⟨rfl, rfl⟩ := Prod.mk.inj (Option.some.inj he)
  exact ⟨ht, hu⟩

theorem expireOrRegister_calls (t : ℕ)
    (hm : req.matches record .waitForEvent = true) (hst : record.status = .waiting) :
    Makes (Calls cfg i (.registerWait req)) (expireOrRegister cfg req record type t) := by
  unfold expireOrRegister
  split
  · exact completeWait_calls htype _ nofun
  · refine bind (commitStepRecord_calls fun _ => ?_) fun _ =>
      findAndComplete_calls htype trivial
    exact ⟨req, ⟨rfl, rfl, rfl⟩, .inr ⟨rfl, .inl ⟨record, type, rfl, htype, hm, hst⟩⟩⟩

end

theorem registerWait_calls (req : StepRequest) :
    Makes (Calls cfg i (.registerWait req)) (Api.registerWait cfg req) := by
  refine .ofExcept_bind fun _ _ => .ofExcept_bind fun type htype =>
    .ofExcept_bind fun due _ => (makes_readStepRecordForClaim req).bind fun raw =>
    Makes.now_bind fun t => ?_
  cases raw with
  | none =>
    exact findAndComplete_calls htype
      (expireOrRegister_calls htype t (record_matches req .waitForEvent .waiting 1) rfl)
  | some raw =>
    refine .ofExcept_bind fun _ hv => ?_
    split
    · exact (makes_storedOutcome ..).bind fun _ => trivial
    · rename_i hst
      exact findAndComplete_calls htype
        (expireOrRegister_calls htype t (verifyStepRecord_ok hv) hst)
    · trivial

/-! ### Ticks -/

/-- The scripts that a dispatch task calls once it has claimed the run. -/
def RunScripts (token : ℕ) : Script → Prop
  | .readState => True
  | .releaseRun _ t status => t = token ∧ (status = .queued ∨ status = .waiting)
  | .clearSuspendedRun _ t | .commitRuntimeTerminal _ t _ _ _ _ _ => t = token
  | _ => False

theorem RunScripts.calls (h : RunScripts i c) : Calls cfg i .dispatch c := by
  cases c <;> first | exact h.elim | exact ⟨rfl, h⟩ | trivial

theorem clearSuspended_calls (run : ClaimedWorkflowRun) :
    Makes (RunScripts run.token) (clearSuspendedRunClaim run) :=
  .eval rfl

theorem release_calls {run : ClaimedWorkflowRun}
    (h : run.state.status = .queued ∨ run.state.status = .waiting) :
    Makes (RunScripts run.token) (releaseRunClaim run) := by
  refine .eval_bind ⟨rfl, h⟩ fun reply _ => ?_
  cases reply with
  | stale | released => trivial
  | suspended => exact clearSuspended_calls run

theorem runTerminalCommit_calls (run : ClaimedWorkflowRun) (outcome : RunOutcome)
    (result : Payload) (now e e' : ℕ) :
    Makes (RunScripts run.token) (runTerminalCommit run outcome result now e e') := by
  refine .eval_bind rfl fun verdict _ => ?_
  cases verdict <;> trivial

theorem commitRuntimeResult_calls (run : ClaimedWorkflowRun) (answer : RuntimeAnswer) :
    Makes (RunScripts run.token) (commitRuntimeResult cfg run answer) := by
  have tooLarge :
    ∀ current t e, Makes (RunScripts run.token) (commitTooLarge cfg run current t e) :=
    fun _ _ _ => .ofExcept_bind fun _ _ => runTerminalCommit_calls ..
  refine .eval_bind trivial fun current _ => ?_
  cases current with
  | none => trivial
  | some current =>
    dsimp only
    split
    · trivial
    · cases answer with
      | error | malformed => trivial
      | suspended =>
        dsimp only
        split
        · trivial
        · exact (clearSuspended_calls run).bind fun _ => trivial
      | completed | failed =>
        refine .now_bind fun t => ?_
        split
        · exact runTerminalCommit_calls ..
        · exact tooLarge ..

theorem finishClaimedWorkflow_calls (run : ClaimedWorkflowRun)
    (h : run.state.status = .queued ∨ run.state.status = .waiting) :
    Makes (RunScripts run.token) (finishClaimedWorkflow cfg run) := by
  refine .dispatchRuntime_bind fun answer => ?_
  split
  · exact (release_calls h).bind fun _ => trivial
  · refine (commitRuntimeResult_calls run _).attempt.bind fun result => ?_
    cases result with
    | ok o => trivial
    | error e =>
      dsimp only
      split
      · trivial
      · exact (release_calls h).bind fun _ => trivial

theorem claimAndRun_calls {s : State} (h : s.status = .queued ∨ s.status = .waiting) :
    Makes (Calls cfg i .dispatch) (claimAndRun cfg i s) := by
  refine .now_bind fun t => .eval_bind ⟨rfl, rfl, rfl, h⟩ fun claimed _ => ?_
  split
  · exact makes_mono (finishClaimedWorkflow_calls ⟨s, i⟩ h) fun c hc => RunScripts.calls hc
  · trivial

theorem processReadyWorkflowToken_calls :
    Makes (Calls cfg i .dispatch) (processReadyWorkflowToken cfg i) := by
  refine .eval_bind trivial fun reply _ => ?_
  split
  · exact .eval_bind trivial fun _ _ => trivial
  · split
    · exact .now_bind fun _ => .eval_bind trivial fun _ _ => trivial
    · exact .eval_bind trivial fun _ _ => trivial
    · exact .eval_bind trivial fun _ _ => trivial
    · exact .eval_bind trivial fun _ _ => trivial
    · trivial
    · trivial
    · rename_i hst
      exact .ofExcept_bind fun _ _ => claimAndRun_calls (.inl hst)
    · rename_i hst
      exact .ofExcept_bind fun _ _ => claimAndRun_calls (.inr hst)

theorem moveDueTokens_calls : Makes (Calls cfg i k) moveDueTokens := by
  refine .now_bind fun _ => .eval_bind trivial fun due _ => ?_
  split
  · exact .eval_bind trivial fun _ _ => trivial
  · trivial

/-- The token of a state that was seen to be terminal is never planned to be removed. -/
theorem retentionTokenState_removeToken {state : Option State} {now : ℕ}
    (h : retentionTokenState state now = .removeToken) :
    ∀ status g c, seenState state = some (status, g, c) → status.terminal = false := by
  intro status g c hseen
  cases state with
  | none => exact (nomatch hseen)
  | some s =>
    obtain ⟨rfl, -⟩ := Prod.mk.inj (Option.some.inj hseen)
    unfold retentionTokenState at h
    dsimp only at h
    split at h
    · assumption
    · split at h <;> cases h

theorem cleanupRetention_calls : Makes (Calls cfg i .retention) Api.cleanupRetention := by
  refine .now_bind fun t => .eval_bind trivial fun score _ => ?_
  cases score with
  | none => trivial
  | some score =>
    refine .eval_bind trivial fun state _ => ?_
    split
    · rename_i hplan
      exact .eval_bind (retentionTokenState_removeToken hplan) fun _ _ => trivial
    · trivial
    · exact .eval_bind rfl fun _ _ => trivial

/-! ### Requests -/

theorem cleanupExpiredPendingCreate_calls (hk : k.Requests) (s : State) :
    Makes (Calls cfg i k) (cleanupExpiredPendingCreate s) := by
  refine .now_bind fun t => ?_
  split
  · trivial
  · split
    · trivial
    · exact .eval hk

theorem readPublicState_calls (hk : k.Requests) : Makes (Calls cfg i k) readPublicState := by
  refine .eval_bind trivial fun state _ => ?_
  cases state with
  | none => trivial
  | some s =>
    dsimp only
    split
    · trivial
    · exact (cleanupExpiredPendingCreate_calls hk s).bind fun _ => trivial

theorem waitForPublicCreateState_calls (hk : k.Requests) (attempts : ℕ) :
    Makes (Calls cfg i k) (waitForPublicCreateState attempts) := by
  induction attempts with
  | zero => trivial
  | succ attempts ih =>
    refine .eval_bind trivial fun state _ => ?_
    cases state with
    | none => trivial
    | some s =>
      dsimp only
      split
      · trivial
      · refine (cleanupExpiredPendingCreate_calls hk s).bind fun removed => ?_
        cases removed with
        | true => trivial
        | false => exact ih

theorem reserveInstance_calls (hk : k.Creates) {a : CreateArgs} (htoken : a.pendingToken = i)
    (hparams : a.params.bytes ≤ cfg.paramsLimit) : Makes (Calls cfg i k) (reserveInstance a) := by
  have hcall : Calls cfg i k (.createInstance a) := ⟨hk, htoken, hparams⟩
  refine .eval_bind hcall fun created _ => ?_
  split
  · trivial
  · refine (waitForPublicCreateState_calls hk.requests _).bind fun existing => ?_
    cases existing with
    | some s => trivial
    | none =>
      refine Makes.eval_bind hcall fun created _ => ?_
      split
      · trivial
      · refine (waitForPublicCreateState_calls hk.requests _).bind fun existing => ?_
        cases existing <;> trivial

theorem publishCreate_calls (hk : k.Creates) (version : ℕ) :
    Makes (Calls cfg i k) (publishCreate i version) := by
  have hcheck : Makes (Calls cfg i k) (recheckCreate version) :=
    .askControl_bind fun _ => .askControl_bind fun _ => makes_askControl
  refine hcheck.attempt.bind fun checked => ?_
  cases checked with
  | error e => exact Makes.eval_bind hk.requests fun _ _ => trivial
  | ok u =>
    refine Makes.now_bind fun t => .eval_bind ⟨hk, rfl⟩ fun finalized _ => ?_
    split <;> trivial

theorem createInstanceAfterDeletePreflight_calls (hk : k.Creates) (version : ℕ)
    (req : CreateRequest) :
    Makes (Calls cfg i k) (createInstanceAfterDeletePreflight cfg i version req) := by
  unfold createInstanceAfterDeletePreflight
  split_ifs with hparams
  · trivial
  · refine .now_bind fun t => ?_
    refine bind (reserveInstance_calls hk rfl (not_lt.1 hparams)) fun existing => ?_
    cases existing with
    | some s => trivial
    | none => exact publishCreate_calls hk version

theorem createInstance_calls (req : CreateRequest) :
    Makes (Calls cfg i (.create req)) (Api.createInstance cfg i req) := by
  have hk : (Kind.create req).Creates := trivial
  exact .askControl_bind fun version => .askControl_bind fun _ =>
    .askControl_bind fun _ => createInstanceAfterDeletePreflight_calls hk version req

theorem createBatch_calls (req : CreateRequest) :
    Makes (Calls cfg i (.createBatch req)) (Api.createBatch cfg i req) := by
  have hk : (Kind.createBatch req).Creates := trivial
  refine .askControl_bind fun version => .askControl_bind fun _ =>
    (readPublicState_calls hk.requests).bind fun existing => ?_
  cases existing with
  | some s => trivial
  | none =>
    refine Makes.askControl_bind fun _ => ?_
    exact (createInstanceAfterDeletePreflight_calls hk version req).bind fun _ => trivial

theorem sendEvent_calls (type : Option EventType) (payload : Payload) :
    Makes (Calls cfg i (.sendEvent type payload)) (Api.sendEvent cfg type payload) := by
  have hread : Makes (Calls cfg i (.sendEvent type payload)) readSendEventState := by
    refine .eval_bind trivial fun state _ => ?_
    cases state with
    | none => trivial
    | some s =>
      dsimp only
      split
      · trivial
      · refine .now_bind fun t => ?_
        split
        · exact readPublicState_calls trivial
        · trivial
  refine .ofExcept_bind fun _ _ => .ofExcept_bind fun _ _ => hread.bind fun state => ?_
  cases state with
  | none => trivial
  | some s =>
    dsimp only
    split
    · trivial
    · exact Makes.now_bind fun t => .eval_bind ⟨trivial, rfl⟩ fun _ _ => makes_ofExcept

theorem staleTransitionResponse_calls (hk : k.Requests) :
    Makes (Calls cfg i k) staleTransitionResponse := by
  refine (readPublicState_calls hk).bind fun state => ?_
  cases state <;> trivial

theorem transition_calls (hk : k.Requests) {settled : State → Bool} {script : State → ServiceM Bool}
    {next : Status} (h : ∀ s, Makes (Calls cfg i k) (script s)) :
    Makes (Calls cfg i k) (transition settled script next) := by
  refine (readPublicState_calls hk).bind fun state => ?_
  cases state with
  | none => trivial
  | some s =>
    dsimp only
    split
    · trivial
    · refine (h s).bind fun updated => ?_
      cases updated with
      | true => trivial
      | false => exact staleTransitionResponse_calls hk

theorem restartInstance_calls : Makes (Calls cfg i .restart) (restartInstance cfg i) := by
  have hk : Kind.restart.Requests := trivial
  have discard : ∀ version, Makes (Calls cfg i .restart) (discardPendingRestart i version) := by
    intro version
    refine bind (attempt (Makes.eval ?_)) fun _ => trivial
    trivial
  refine .askControl_bind fun version => (readPublicState_calls hk).bind fun state => ?_
  cases state with
  | none => trivial
  | some s =>
    refine Makes.eval_bind trivial fun params _ => ?_
    cases params with
    | none => trivial
    | some params =>
      refine .ofExcept_bind fun params' hparams => .askControl_bind fun _ =>
        .eval_bind trivial fun _ _ => ?_
      have hbytes : params'.bytes ≤ cfg.paramsLimit := by
        unfold parsePayloadJson at hparams
        split at hparams
        · cases hparams
        · rename_i hle
          rw [← Except.ok.inj hparams]
          exact not_lt.1 hle
      have hcheck : Makes (Calls cfg i .restart) (recheckRestart version) :=
        .askControl_bind fun _ => .askControl_bind fun _ => makes_askControl
      refine hcheck.attempt.bind fun checked => ?_
      cases checked with
      | error e => exact (discard version).bind fun _ => trivial
      | ok u =>
        refine Makes.now_bind fun t => ?_
        refine bind (attempt (Makes.eval ⟨rfl, rfl, hbytes⟩)) fun reply => ?_
        cases reply with
        | error e => exact (discard version).bind fun _ => trivial
        | ok reply =>
          cases reply with
          | leaseExpired => trivial
          | stale => exact (discard version).bind fun _ => staleTransitionResponse_calls hk
          | restarted => trivial

/-- **The calls of the programs.** A process only makes the calls that `Calls` says. -/
theorem body_calls (cfg : Service) (i : ℕ) (k : Kind) : Makes (Calls cfg i k) (body cfg i k) := by
  cases k with
  | dispatch => exact processReadyWorkflowToken_calls.bind fun _ => trivial
  | moveDue => exact moveDueTokens_calls.bind fun _ => trivial
  | prune =>
    refine bind ?_ fun _ => trivial
    exact Makes.eval_bind trivial fun _ _ => trivial
  | retention => exact cleanupRetention_calls.bind fun _ => trivial
  | status =>
    have hk : Kind.status.Requests := trivial
    exact (readPublicState_calls hk).bind fun _ => trivial
  | claimStep req => exact (claimStep_calls req).bind fun _ => trivial
  | commitStepSuccess req => exact (commitStepSuccess_calls req).bind fun _ => trivial
  | commitStepError req => exact (commitStepError_calls req).bind fun _ => trivial
  | registerSleep req => exact (registerSleep_calls req).bind fun _ => trivial
  | registerWait req => exact (registerWait_calls req).bind fun _ => trivial
  | create req => exact (createInstance_calls req).bind fun _ => trivial
  | createBatch req => exact (createBatch_calls req).bind fun _ => trivial
  | sendEvent type payload => exact (sendEvent_calls type payload).bind fun _ => trivial
  | pause =>
    have hk : Kind.pause.Requests := trivial
    refine bind (transition_calls hk fun s => ?_) fun _ => trivial
    exact .eval ⟨rfl, rfl⟩
  | resume =>
    have hk : Kind.resume.Requests := trivial
    refine bind (transition_calls hk fun s => ?_) fun _ => trivial
    exact .eval ⟨rfl, rfl⟩
  | terminate =>
    have hk : Kind.terminate.Requests := trivial
    refine bind (transition_calls hk fun s => ?_) fun _ => trivial
    exact .now_bind fun t => .eval ⟨rfl, rfl⟩
  | restart => exact restartInstance_calls.bind fun _ => trivial

theorem Calls.stateStatus {g t now o : ℕ} (h : Calls cfg i k (.commitStepRecord g t now o a)) :
    a.stateStatus = .running ∨ a.stateStatus = .waiting := by
  obtain ⟨req, -, ⟨-, kind, record, due, rfl, -⟩ | ⟨-, hw⟩⟩ := h
  · cases due with
    | none => exact .inl rfl
    | some d => exact .inr rfl
  · rcases hw with ⟨record, type, rfl, -⟩ | ⟨event, output, now, type, rfl, -⟩
    · exact .inr rfl
    · exact .inl rfl

/-- The answers of the store are as `Answers` says. -/
theorem call_answers (cfg : Service) (c : Call) (db : Db) (x : api.Ans c) (db' : Db)
    (h : Db.call cfg c db x db') : Answers c x := by
  cases c with
  | now | control | dispatchRuntime => trivial
  | redis c =>
    cases c
    case scanEventIndex t o pre =>
      rcases h with ⟨y, i', hexec, -, rfl | rfl⟩ | ⟨rfl, -⟩
      · rcases hexec with hexec | ⟨hexp, -⟩
        swap
        · exact hexp.elim
        obtain ⟨rfl, -⟩ := Prod.mk.inj hexec
        exact fun m hm => indexRange_mem hm
      · trivial
      · trivial
    all_goals cases x <;> trivial

variable {ok : ServiceWorld → Label api Kind Env → Prop} {w : ServiceWorld}

/-- A process of a reachable state only makes the calls of its kind. -/
theorem ReachableWhen.calls (h : ReachableWhen cfg ok w) {c : Call}
    {next : api.Ans c → ServiceM Result} {live : Bool}
    (hp : w.proc i = some ⟨k, .call c next, live⟩) : OnScripts (Calls cfg i k) c :=
  (System.ReachableWhen.emits (call_answers cfg) (body_calls cfg) h hp).1

/-- A call leaves the store as it is, or it is a script with one of the effects. -/
theorem Db.call_cases {c : Call} {db db' : Db} {x : api.Ans c} (h : Db.call cfg c db x db') :
    db' = db ∨ ∃ script y inst', c = .redis script ∧ Effect cfg db.inst script y inst' ∧
      db' = db.after script y inst' := by
  cases c with
  | now | control | dispatchRuntime => exact .inl h
  | redis script =>
    rcases h with ⟨y, inst', hexec, hdb, -⟩ | ⟨-, hdb⟩
    · exact .inr ⟨script, y, inst', rfl, script.exec_effect hexec, hdb⟩
    · exact .inl hdb

/-- A property of the keys that every effect keeps, when the script is called as the
    processes call it, holds in every reachable state. -/
theorem ReachableWhen.inst_invariant {J : Instance → Prop} (hinit : J .absent)
    (heffect : ∀ i k c inst x inst', Calls cfg i k c → J inst → Effect cfg inst c x inst' → J inst')
    (hothers : ∀ inst b, J inst → J { inst with othersReady := b, active := inst.active || b })
    (h : ReachableWhen cfg ok w) : J w.store.inst := by
  refine System.ReachableWhen.store_invariant (J := fun db => J db.inst) (call_answers cfg)
    (body_calls cfg) (fun db hdb => ?_) ?_ ?_ h
  · rw [hdb.1]
    exact hinit
  · intro i k c db x db' hc hJ hcall
    rcases Db.call_cases hcall with rfl | ⟨script, y, inst', rfl, heff, rfl⟩
    · exact hJ
    · exact heffect i k script db.inst y inst' hc hJ heff
  · intro e db db' hJ he
    cases e with
    | tick t => rw [he.2]; exact hJ
    | othersReady b => rw [show db' = _ from he]; exact hothers db.inst b hJ

end Wdl.Workflow
