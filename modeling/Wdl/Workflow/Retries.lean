import Wdl.Workflow.Processes

/-!
# Waiting steps and the due entry

An instance has one entry in the due set, and any number of step records that wait for
a time. When no run is left to look after them and the token is not ready, the entry must
be due no later than the earliest of these records, or its retry is late.

Each script that enters a due time writes it over the one before, without looking at the
other records. The siblings of a fan-out therefore have to commit their due times from the
latest to the earliest (`EarliestLast`): then every waiting record is covered
(`earliest_retry_wins`), and otherwise it may not be (`later_sibling_delays_retry`).
-/

namespace Wdl.Workflow

open Status Api ServiceM

/-! ## What is waited for -/

/-- The step record with this ordinal waits until this time. -/
def WaitsUntil (i : Instance) (ordinal dueAtMs : ℕ) : Prop :=
  ∃ r, i.steps.lookup ordinal = some r ∧ r.val.status = .waiting ∧ r.val.dueAtMs = some dueAtMs

/-- The token is due no later than every record that waits until a time. -/
def DueInTime (i : Instance) : Prop :=
  ∀ n d, WaitsUntil i n d → ∃ score, i.due = some score ∧ score ≤ d

/-- No run holds the instance, at a time. -/
def NoLiveRun (s : State) (clock : ℕ) : Prop :=
  s.runToken = none ∨ s.runLeaseExpiresAtMs.getD 0 ≤ clock

/-- An instance that waits, with no ready token and no live run, is due no later than every
    record that waits until a time. -/
def EarliestRetryWins (db : Db) : Prop :=
  ∀ s, db.inst.state = some s → s.status = .waiting → db.inst.ready = false →
    NoLiveRun s db.clock → DueInTime db.inst

variable {cfg : Service} {i i' : Instance} {n : ℕ}

theorem waitsUntil_congr (h : i'.steps = i.steps) {d : ℕ} :
    WaitsUntil i' n d ↔ WaitsUntil i n d := by
  rw [WaitsUntil, WaitsUntil, h]

theorem DueInTime.congr (h : DueInTime i) (hsteps : i'.steps = i.steps) (hdue : i'.due = i.due) :
    DueInTime i' := by
  intro n d hn
  rw [hdue]
  exact h n d ((waitsUntil_congr hsteps).mp hn)

variable {o : ℕ} {record : JsonText StepRecord}

/-- A record is written: the others wait as before. -/
theorem waitsUntil_insert (h : i'.steps = i.steps.insert o record) {d : ℕ}
    (hn : WaitsUntil i' n d) :
    (n ≠ o ∧ WaitsUntil i n d) ∨
      (n = o ∧ record.val.status = .waiting ∧ record.val.dueAtMs = some d) := by
  obtain ⟨r, hr, hst, hdue⟩ := hn
  rw [h] at hr
  by_cases hno : n = o
  · subst hno
    rw [Finmap.lookup_insert] at hr
    cases hr
    exact .inr ⟨rfl, hst, hdue⟩
  · rw [Finmap.lookup_insert_of_ne _ hno] at hr
    exact .inl ⟨hno, r, hr, hst, hdue⟩

theorem waitsUntil_of_insert (h : i'.steps = i.steps.insert o record)
    (hr : record.val.status ≠ .waiting) {d : ℕ} (hn : WaitsUntil i' n d) : WaitsUntil i n d := by
  rcases waitsUntil_insert h hn with ⟨-, hn⟩ | ⟨-, hst, -⟩
  · exact hn
  · exact absurd hst hr

/-! ## The condition -/

/-- The script does not lose an earlier due time: a due time that it enters is no later than that
    of any other waiting record, and none is dropped while another record waits for it; and
    a run is only claimed while the token is ready. -/
def Script.KeepsEarliest : Script → Instance → Prop
  | .claimRun status generation _ _ _ _, i =>
    ∀ s, i.state = some s → s.status = status → s.generation = generation → i.ready = true
  | .commitStepError generation token now ordinal _ _ _ _ (some due), i =>
    ∀ s, claimFence generation token now i = .ok s →
      ∀ n d, n ≠ ordinal → WaitsUntil i n d → due ≤ d
  | .commitStepRecord generation token now ordinal a, i =>
    ∀ s, claimFence generation token now i = .ok s →
      ∀ n d, n ≠ ordinal → WaitsUntil i n d → ∃ due, a.dueAtMs = some due ∧ due ≤ d
  | .restoreWaitingDue generation token now due, i =>
    ∀ s, claimFence generation token now i = .ok s → ∀ n d, WaitsUntil i n d → due ≤ d
  | _, _ => True

/-- The condition on a call. -/
def KeepsEarliest : Call → Db → Prop
  | .redis c, db => c.KeepsEarliest db.inst
  | _, _ => True

/-- The steps in which no script loses an earlier due time. -/
def EarliestLast (w : ServiceWorld) : Label api Kind Env → Prop
  | .call _ c _ => KeepsEarliest c w.store
  | _ => True

/-! ## The invariant -/

/-- What is kept by every script that loses no earlier due time. A run that holds the instance
    may yet clear the ready token, so it matters that the token is due in time already;
    while the instance runs without a ready token, nothing waits for a time. -/
structure RetryInv (i : Instance) : Prop where
  waiting : ∀ s, i.state = some s → s.status = .waiting →
    (s.runToken.isSome ∨ i.ready = false) → DueInTime i
  running : ∀ s, i.state = some s → s.status = .running → i.ready = false →
    ∀ n d, ¬ WaitsUntil i n d

variable {s : State}

theorem RetryInv.of_state (hs : i.state = some s)
    (hw : s.status = .waiting → (s.runToken.isSome ∨ i.ready = false) → DueInTime i)
    (hr : s.status = .running → i.ready = false → ∀ n d, ¬ WaitsUntil i n d) : RetryInv i := by
  constructor
  · intro s' hs' hst
    cases hs.symm.trans hs'
    exact hw hst
  · intro s' hs' hst
    cases hs.symm.trans hs'
    exact hr hst

theorem RetryInv.of_status (hs : i.state = some s) (hw : s.status ≠ .waiting)
    (hr : s.status ≠ .running) : RetryInv i :=
  .of_state hs (fun hst => absurd hst hw) (fun hst => absurd hst hr)

theorem RetryInv.of_none (hs : i.state = none) : RetryInv i := by
  constructor <;> intro s hs' <;> cases hs.symm.trans hs'

/-- Nothing the invariant speaks of is changed, but that the token may have become ready. -/
theorem RetryInv.congr {s' : State} (h : RetryInv i) (hs : i.state = some s)
    (hs' : i'.state = some s') (hstatus : s'.status = s.status) (htoken : s'.runToken = s.runToken)
    (hready : i'.ready = false → i.ready = false) (hsteps : i'.steps = i.steps)
    (hdue : i'.due = i.due) : RetryInv i' := by
  refine .of_state hs' (fun hst hor => ?_) (fun hst hr n d hn => ?_)
  · rw [hstatus] at hst
    rw [htoken] at hor
    exact (h.waiting s hs hst (hor.imp_right hready)).congr hsteps hdue
  · rw [hstatus] at hst
    exact h.running s hs hst (hready hr) n d ((waitsUntil_congr hsteps).mp hn)

/-- A record that does not wait is written, and nothing else is changed that matters. -/
theorem RetryInv.write {s' : State} (h : RetryInv i)
    (hs : i.state = some s) (hs' : i'.state = some s') (hstatus : s'.status = s.status)
    (htoken : s'.runToken = s.runToken) (hready : i'.ready = i.ready)
    (hsteps : i'.steps = i.steps.insert o record) (hrecord : record.val.status ≠ .waiting)
    (hdue : i'.due = i.due) : RetryInv i' := by
  refine .of_state hs' (fun hst hor n d hn => ?_) (fun hst hr n d hn => ?_)
  · rw [hstatus] at hst
    rw [htoken, hready] at hor
    rw [hdue]
    exact h.waiting s hs hst hor n d (waitsUntil_of_insert hsteps hrecord hn)
  · rw [hstatus] at hst
    rw [hready] at hr
    exact h.running s hs hst hr n d (waitsUntil_of_insert hsteps hrecord hn)

variable {k : Kind} {a : StepRecordCommit}

/-- The record of a record commit: it waits until the due time of the commit, and so does the
    instance, or it is completed and the instance goes on running. -/
theorem Calls.recordCommit {g t now : ℕ} (h : Calls cfg n k (.commitStepRecord g t now o a)) :
    (a.stateStatus = .waiting ∧ a.record.val.dueAtMs = a.dueAtMs) ∨
      (a.stateStatus = .running ∧ a.dueAtMs = none ∧ a.record.val.status ≠ .waiting) := by
  obtain ⟨req, -, ⟨-, kind, record, due, rfl, -, -, hsleep⟩ | ⟨-, hwait⟩⟩ := h
  · rcases hsleep with ⟨rfl, d, now, rfl⟩ | ⟨d, rfl, -, hdue⟩
    · exact .inr ⟨rfl, rfl, StepStatus.noConfusion⟩
    · exact .inl ⟨rfl, hdue⟩
  · rcases hwait with ⟨record, type, rfl, -⟩ | ⟨event, output, now, type, rfl, -⟩
    · exact .inl ⟨rfl, rfl⟩
    · exact .inr ⟨rfl, rfl, StepStatus.noConfusion⟩

/-- A record commit that loses no earlier due time. -/
theorem RetryInv.recorded {g t now : ℕ} (hcalls : Calls cfg n k (.commitStepRecord g t now o a))
    (hok : ∀ n d, n ≠ o → WaitsUntil i n d → ∃ due, a.dueAtMs = some due ∧ due ≤ d) :
    RetryInv (writeRecord i s o a) := by
  have hsteps : (writeRecord i s o a).steps = i.steps.insert o a.record := rfl
  refine .of_state rfl (fun hst _ m d hm => ?_) (fun hst _ m d hm => ?_)
  · -- The instance waits: for the time of the commit, which is no later than the others.
    rcases waitsUntil_insert hsteps hm with ⟨hne, hm⟩ | ⟨-, hwaits, hdue⟩
    · exact hok m d hne hm
    · rcases Calls.recordCommit hcalls with ⟨-, heq⟩ | ⟨-, -, hdone⟩
      · exact ⟨d, heq.symm.trans hdue, le_refl d⟩
      · exact absurd hwaits hdone
  · -- The instance goes on running: there is no due time, so no record may wait for one.
    rcases Calls.recordCommit hcalls with ⟨hst', -⟩ | ⟨-, hnone, hdone⟩
    · cases (show a.stateStatus = .running from hst).symm.trans hst'
    · rcases waitsUntil_insert hsteps hm with ⟨hne, hm⟩ | ⟨-, hwaits, -⟩
      · obtain ⟨due, hdue, -⟩ := hok m d hne hm
        cases hnone.symm.trans hdue
      · exact hdone hwaits

theorem RetryInv.effect {c : Script} {x : c.Reply} (hcalls : Calls cfg n k c)
    (hok : c.KeepsEarliest i) (h : RetryInv i) (heff : Effect cfg i c x i') : RetryInv i' := by
  cases heff with
  | idle => exact h
  | claimed s hs hst hg =>
    refine .of_state rfl (fun hst' => ?_) (fun _ hr => ?_)
    · cases hst'
    · exact absurd ((hok s hs hst hg).symm.trans hr) (by decide)
  | released s hs hg ht hst =>
    obtain ⟨-, -, hstatus⟩ := hcalls
    refine .of_state rfl (fun _ hor m d hm => ?_) (fun hst' => ?_)
    · -- The token is dropped, and if it is not ready nothing waits for a time.
      have hready : i.ready = false := hor.resolve_left Bool.false_ne_true
      exact absurd hm (h.running s hs hst hready m d)
    · rcases hstatus with hq | hq <;> rw [hq] at hst' <;> cases hst'
  | clearedReady s pre hs hst hg ht | cleared s hs hst hg ht =>
    -- the claim is dropped, and the instance still waits for the same time
    have hdue := h.waiting s hs hst (.inl (Option.isSome_of_eq_some ht))
    refine .of_state rfl (fun _ _ => hdue.congr rfl rfl) (fun hst' => ?_)
    cases (show s.status = .running from hst').symm.trans hst
  | requeued s => exact .of_status rfl noConfusion noConfusion
  | dueDropped hst =>
    refine ⟨fun s hs hst' => absurd hst' (hst s hs).2, fun s hs hst' hr m d hm => ?_⟩
    exact h.running s hs hst' hr m d hm
  | dueMovedFree s hs hst ht =>
    refine .of_state hs (fun _ hor => ?_) (fun hst' => ?_)
    · rcases hor with hor | hor
      · rw [ht] at hor; cases hor
      · cases hor
    · rw [hst'] at hst; rcases hst with hst | hst <;> cases hst
  | dueMoved s hs hst =>
    refine .of_state rfl (fun _ hor => ?_) (fun hst' => ?_)
    · rcases hor with hor | hor <;> cases hor
    · rw [show s.status = .running from hst'] at hst
      rcases hst with hst | hst <;> cases hst
  | terminalUnready s hs hst =>
    refine .of_status hs (fun hst' => ?_) (fun hst' => ?_) <;> rw [hst'] at hst <;> cases hst
  | missingUnready hs => exact .of_none hs
  | pruned => exact ⟨h.waiting, h.running⟩
  | stepSucceeded s hs | stepFailed s hs =>
    -- a finished record waits for nothing
    obtain ⟨req, attempt, -, -, rfl, -⟩ := hcalls
    exact h.write (claimFence_ok hs).1 rfl rfl rfl rfl rfl StepStatus.noConfusion rfl
  | @stepRetried g t now o ref json record summary due s hs =>
    obtain ⟨req, attempt, -, -, rfl, -⟩ := hcalls
    refine .of_state rfl (fun _ _ m d hm => ?_) noConfusion
    rcases waitsUntil_insert (o := o) rfl hm with ⟨hne, hm⟩ | ⟨-, -, hdue⟩
    · exact ⟨due, rfl, hok s hs m d hne hm⟩
    · exact ⟨due, rfl, (Option.some.inj hdue).le⟩
  | recorded s hs => exact .recorded hcalls (hok s hs)
  | @restored g t now due s hs =>
    refine .of_state rfl (fun _ _ m d hm => ?_) noConfusion
    exact ⟨due, rfl, hok s hs m d hm⟩
  | eventStored s hs hst =>
    refine h.congr hs rfl rfl rfl (fun hr => ?_) rfl rfl
    by_cases hp : s.status = .paused
    · rw [storeEvent, if_pos hp] at hr
      exact hr
    · rw [storeEvent, if_neg hp] at hr
      cases hr
  | staleDropped => exact ⟨h.waiting, h.running⟩
  | created | finalized => exact .of_status rfl noConfusion noConfusion
  | pendingRemoved => exact .of_none rfl
  | paused | resumed | terminated | restarted =>
    exact .of_status rfl noConfusion noConfusion
  | terminalRequeued s hs hst =>
    exact h.congr hs hs rfl rfl (fun hr => by cases hr) rfl rfl
  | terminalOverflow => exact .of_status rfl noConfusion noConfusion
  | @terminalCommitted g t outcome =>
    cases outcome <;> exact .of_status rfl noConfusion noConfusion
  | tokenRemoved => exact ⟨h.waiting, h.running⟩
  | expired => exact .of_none rfl

/-- The invariant holds in every run in which no script loses an earlier due time. -/
theorem retryInv_of_reachable {w : ServiceWorld} (h : ReachableWhen cfg EarliestLast w) :
    RetryInv w.store.inst := by
  refine System.ReachableWhen.invariant (J := fun w => RetryInv w.store.inst)
    (fun db hdb => ?_) (fun w l w' hw hJ hok hs => ?_) h
  · rw [hdb.1]
    exact .of_none rfl
  · cases hs with
    | spawn j k hj => exact hJ
    | @call j k c next x db' hj hc =>
      have hcalls := ReachableWhen.calls hw hj
      rcases Db.call_cases hc with rfl | ⟨script, y, inst', rfl, heff, rfl⟩
      · exact hJ
      · exact .effect hcalls hok hJ heff
    | stop j hj => exact hJ
    | env e he =>
      cases e with
      | tick t => rw [he.2]; exact hJ
      | othersReady b =>
        cases (he : _ = _)
        exact ⟨hJ.waiting, hJ.running⟩

/-- In a run in which every due time that is entered is no later than those of the other waiting
    records, none is dropped while another record waits for it, and runs are only claimed
    while the token is ready, the earliest retry wins in every state. -/
theorem earliest_retry_wins {w : ServiceWorld} (h : ReachableWhen cfg EarliestLast w) :
    EarliestRetryWins w.store := by
  intro s hs hst hready _
  exact (retryInv_of_reachable h).waiting s hs hst (.inr hready)

/-! ## Two siblings -/

/-- A retryable step of the run with token `1`, whose retry is due after a delay. -/
def siblingRequest (ordinal : ℕ) (delayMs : ℤ) : StepRequest where
  generation := 1
  createdAtMs := 100
  runToken := 1
  ordinal := ordinal
  stepName := "step"
  nameCount := ordinal + 1
  dependencies := []
  attempt := none
  nonRetryable := false
  config := ⟨0, 20, some (some ⟨.integer 3, .integer delayMs, .absent, some "constant"⟩),
    none, none⟩
  output := .null
  error := examplePayload
  dueAtMs := none

/-- An instance that was created and claimed. -/
noncomputable def fanOutWorld : ServiceWorld :=
  (ServiceWorld.initial.alone .standard 0 (.create ⟨.null, 1000, 1000⟩) 10 100 7 .malformed).alone
    .standard 1 .dispatch 3 200 7 .malformed

/-- Two siblings of the run fail at the time `300`, and are to be retried after these delays;
    then the run is suspended. -/
noncomputable def siblingsWorld (first second : ℤ) : ServiceWorld :=
  ((fanOutWorld.alone .standard 2 (.commitStepError (siblingRequest 0 first)) 10 300 7
    .malformed).alone .standard 3 (.commitStepError (siblingRequest 1 second)) 10 300 7
    .malformed).further .standard 1 10 300 7 .suspended

/-- **A later sibling.** The second sibling writes its later due time over that of the first:
    the record of the first waits until `400`, and the token is due at `500`. -/
theorem later_sibling_delays_retry :
    Reachable .standard (siblingsWorld 100 200) ∧
      ¬ EarliestRetryWins (siblingsWorld 100 200).store := by
  constructor
  · have h₁ := ((Reachable.initial .standard).alone rfl (.create ⟨.null, 1000, 1000⟩) 10 100 7
      .malformed (i := 0)).alone rfl .dispatch 3 200 7 .malformed (i := 1)
    have h₂ := (h₁.alone rfl (.commitStepError (siblingRequest 0 100)) 10 300 7 .malformed
      (i := 2)).alone rfl (.commitStepError (siblingRequest 1 200)) 10 300 7 .malformed (i := 3)
    exact h₂.further rfl 10 300 7 .suspended
  · intro hwins
    have hstate : ∃ s, (siblingsWorld 100 200).store.inst.state = some s ∧ s.status = .waiting ∧
        s.runToken = none := ⟨_, rfl, rfl, rfl⟩
    obtain ⟨s, hs, hst, htoken⟩ := hstate
    have hwaits : WaitsUntil (siblingsWorld 100 200).store.inst 0 400 := ⟨_, rfl, rfl, rfl⟩
    obtain ⟨score, hscore, hle⟩ := hwins s hs hst rfl (.inl htoken) 0 400 hwaits
    have hdue : (siblingsWorld 100 200).store.inst.due = some 500 := rfl
    cases hscore
    exact absurd hle (by decide)

/-- When the sibling with the earlier retry commits last, the token is due for it. -/
theorem earliest_retry_wins_siblings :
    ReachableWhen .standard EarliestLast (siblingsWorld 200 100) ∧
      EarliestRetryWins (siblingsWorld 200 100).store ∧
      (siblingsWorld 200 100).store.inst.due = some 400 := by
  have hP : ∀ (w : ServiceWorld) i c x, KeepsEarliest c w.store → EarliestLast w (.call i c x) :=
    fun _ _ _ _ h => h
  have h₁ : StepsWhen .standard EarliestLast .initial
      (ServiceWorld.initial.alone .standard 0 (.create ⟨.null, 1000, 1000⟩) 10 100 7 .malformed) :=
    StepsWhen.alone_of_drives hP .refl rfl trivial
      ⟨trivial, trivial, trivial, trivial, trivial, trivial, trivial, trivial, trivial, trivial,
        trivial⟩
  have h₂ : StepsWhen .standard EarliestLast .initial fanOutWorld :=
    StepsWhen.alone_of_drives hP h₁ rfl trivial ⟨trivial, trivial, fun _ _ _ _ => rfl, trivial⟩
  have hnone : ∀ n d, ¬ WaitsUntil fanOutWorld.store.inst n d := by
    rintro n d ⟨r, hr, -⟩
    have hempty : none = some r := hr
    cases hempty
  have h₃ : StepsWhen .standard EarliestLast .initial (fanOutWorld.alone .standard 2
      (.commitStepError (siblingRequest 0 200)) 10 300 7 .malformed) :=
    StepsWhen.alone_of_drives hP h₂ rfl trivial
      ⟨trivial, fun _ _ n d _ hn => absurd hn (hnone n d), trivial⟩
  have h₄ : StepsWhen .standard EarliestLast .initial ((fanOutWorld.alone .standard 2
      (.commitStepError (siblingRequest 0 200)) 10 300 7 .malformed).alone .standard 3
      (.commitStepError (siblingRequest 1 100)) 10 300 7 .malformed) := by
    refine .alone_of_drives hP h₃ rfl trivial ⟨trivial, fun _ _ n d _ hn => ?_, trivial⟩
    -- The only other record is that of the first sibling, which waits until `500`.
    change 400 ≤ d
    rcases waitsUntil_insert (i := fanOutWorld.store.inst) (o := 0) rfl hn with
      ⟨-, hn⟩ | ⟨-, -, hdue⟩
    · exact absurd hn (hnone n d)
    · have hd : 500 = d := Option.some.inj hdue
      omega
  have hreach : ReachableWhen .standard EarliestLast (siblingsWorld 200 100) :=
    (ReachableWhen.initial .standard EarliestLast).steps
      (StepsWhen.further_of_drives hP h₄ rfl ⟨trivial, trivial, trivial, trivial⟩)
  exact ⟨hreach, earliest_retry_wins hreach, rfl⟩

end Wdl.Workflow
