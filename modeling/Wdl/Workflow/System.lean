import Wdl.Workflow.Requests

/-!
# The service as a system of processes

The requests of tenants, the calls of Runtime, the sweeps and the dispatch tasks
are processes over the keys of one instance. Any number of them run at once, on
any number of machines, and each of them may stop at any point.

* `Kind` are the processes and `body` their programs. A dispatch task claims with
  its own number as run token, and a create reserves under its own number, so that
  tokens are unique.
* `History` records what has happened, for stating properties of whole runs. It is
  written by the calls and never read by a program.
* `workflows` is the system.
-/

namespace Wdl.Workflow

open Api

/-! ## Processes -/

/-- The processes of the service. -/
inductive Kind
  | dispatch
  | moveDue
  | prune
  | retention
  | status
  | claimStep (req : StepRequest)
  | commitStepSuccess (req : StepRequest)
  | commitStepError (req : StepRequest)
  | registerSleep (req : StepRequest)
  | registerWait (req : StepRequest)
  | create (req : CreateRequest)
  | createBatch (req : CreateRequest)
  | sendEvent (type : Option EventType) (payload : Payload)
  | pause
  | resume
  | terminate
  | restart

/-- What a process returns. -/
inductive Result
  | done
  | step (a : StepAnswer)
  | status (s : Status)
  | created (o : CreateInstanceOutcome)

/-- The program of a process. -/
def body (cfg : Service) (i : ℕ) : Kind → ServiceM Result
  | .dispatch => do processReadyWorkflowToken cfg i; .ret .done
  | .moveDue => do moveDueTokens; .ret .done
  | .prune => do pruneReadyShards; .ret .done
  | .retention => do Api.cleanupRetention; .ret .done
  | .status => do
    let s ← readPublicState
    .ret (s.elim .done fun s => .status s.status)
  | .claimStep req => do let a ← Api.claimStep req; .ret (.step a)
  | .commitStepSuccess req => do let a ← Api.commitStepSuccess cfg req; .ret (.step a)
  | .commitStepError req => do let a ← Api.commitStepError cfg req; .ret (.step a)
  | .registerSleep req => do let a ← Api.registerSleep cfg req; .ret (.step a)
  | .registerWait req => do let a ← Api.registerWait cfg req; .ret (.step a)
  | .create req => do let o ← Api.createInstance cfg i req; .ret (.created o)
  | .createBatch req => do
    let o ← Api.createBatch cfg i req
    .ret (o.elim .done .created)
  | .sendEvent type payload => do Api.sendEvent cfg type payload; .ret .done
  | .pause => do let s ← pauseInstance; .ret (.status s)
  | .resume => do let s ← resumeInstance; .ret (.status s)
  | .terminate => do let s ← terminateInstance; .ret (.status s)
  | .restart => do let s ← restartInstance cfg i; .ret (.status s)

/-! ## Waiting for events -/

/-- An event that no wait has consumed. -/
def EventRecord.Unconsumed (e : EventRecord) : Prop := e.consumedByOrdinal = none

/-- The record is of a wait without deadline, and no unconsumed event of its type is
    buffered. -/
def WaitsForEvent (i : Instance) (r : StepRecord) : Prop :=
  r.kind = .waitForEvent ∧ r.dueAtMs = none ∧ ∃ type, r.config.eventType = some type ∧
    ∀ id e, i.events.lookup id = some e → e.val.type = type → ¬ e.val.Unconsumed

/-- The instance waits for something, and only for events that have not arrived. -/
def WaitsForEvents (i : Instance) : Prop :=
  (∃ n r, i.steps.lookup n = some r ∧ r.val.status = .waiting) ∧
    ∀ n r, i.steps.lookup n = some r → r.val.status = .waiting → WaitsForEvent i r.val

/-! ## History -/

/-- A look at the index, by a wait of a run. -/
structure Lookup where
  token : ℕ
  ordinal : ℕ
  seen : Instance

/-- The outcome that a record commit stores, in the record or by reference. -/
def StepRecordCommit.outcome (a : StepRecordCommit) : Option Payload :=
  a.record.val.output <|> a.payloadRef.bind fun _ => a.payloadJson

/-- An event consumed by a wait of a run, with the type that the wait was for and what it was
    completed with. -/
structure Consumption where
  token : ℕ
  ordinal : ℕ
  type : Option EventType
  event : ℕ
  output : Option Payload

/-- What has happened to the instance. -/
structure History where
  /-- How often the steps and events have been deleted, by a restart or with the instance. -/
  epoch : ℕ
  /-- The run tokens that have been claimed with. -/
  used : Set ℕ
  /-- The steps that runs have written, as run token and ordinal. -/
  written : Set (ℕ × ℕ)
  /-- The run has written a step record without a due time since it was claimed, and has
      not left the instance waiting only for events that had not arrived. -/
  bare : Prop
  lookups : List Lookup
  /-- The events consumed since the steps and events were last deleted. -/
  consumptions : List Consumption

/-- The script deleted the steps and the events. -/
def Script.deletes : (c : Script) → c.Reply → Prop
  | .restart .., x => x = RestartReply.restarted
  | .cleanupRetention .., x => x = true
  | .cleanupPendingCreate .., x => x = true
  | _, _ => False

/-- The script consumed an event. -/
def Script.consumes : (c : Script) → c.Reply → Prop
  | .commitStepRecord _ _ _ _ a, x => x = StepCode.ok ∧ a.eventRecord ≠ none
  | _, _ => False

/-- The script ended the claim of the run, or left the instance a due time. -/
def Script.settles : (c : Script) → c.Reply → Prop
  | .claimRun .., x => x = true
  | .releaseRun .., x => x = ReleaseReply.released
  | .clearSuspendedRun .., x => x = true
  | .requeueExpiredRun .., x => x = true
  | .moveDueToken .., x => x = true
  | .commitStepError _ _ _ _ _ _ _ _ due, x => x = StepCode.ok ∧ due.isSome
  | .restoreWaitingDue .., x => x = StepCode.ok
  | .pause .., x => x = true
  | .resume .., x => x = true
  | .terminate .., x => x = true
  | .restart .., x => x = RestartReply.restarted
  | .finalizeCreateInstance .., x => x = true
  | .commitRuntimeTerminal .., x => x = TerminalReply.committed ∨ x = TerminalReply.overflow
  | _, _ => False

/-- A record commit that leaves neither a due time nor an instance that waits only for
    events that have not arrived. -/
def StepRecordCommit.LeavesBare (a : StepRecordCommit) (i' : Instance) : Prop :=
  a.dueAtMs = none ∧ ¬ (a.stateStatus = .waiting ∧ WaitsForEvents i')

/-- Whether the run is bare after a script. -/
def bareAfter (before : Prop) : (c : Script) → c.Reply → Instance → Prop
  | .commitStepRecord _ _ _ _ a, x, i' =>
    (x = StepCode.ok ∧ a.LeavesBare i') ∨ (x ≠ StepCode.ok ∧ before)
  | c, x, _ => before ∧ ¬ c.settles x

/-- The tokens claimed with after a script. -/
def usedAfter (before : Set ℕ) : (c : Script) → c.Reply → Set ℕ
  | .claimRun _ _ token _ _ _, x => { t | t ∈ before ∨ (x = true ∧ t = token) }
  | _, _ => before

/-- The steps written after a script. -/
def writtenAfter (before : Set (ℕ × ℕ)) : (c : Script) → c.Reply → Set (ℕ × ℕ)
  | .commitStepSuccess _ token _ ordinal .., x
  | .commitStepError _ token _ ordinal .., x
  | .commitStepRecord _ token _ ordinal _, x =>
    { p | p ∈ before ∨ (x = StepCode.ok ∧ p = (token, ordinal)) }
  | _, _ => before

/-- The looks at the index after a script. -/
def lookupsAfter (before : List Lookup) : Script → Instance → List Lookup
  | .scanEventIndex token ordinal _, i => ⟨token, ordinal, i⟩ :: before
  | _, _ => before

open Classical in
/-- The consumed events after a script. -/
noncomputable def consumptionsAfter (before : List Consumption) : (c : Script) → c.Reply →
    List Consumption
  | .commitStepRecord _ token _ ordinal a, x =>
    match a.eventRecord with
    | some (event, _) =>
      if x = StepCode.ok then
        ⟨token, ordinal, a.record.val.config.eventType, event, a.outcome⟩ :: before
      else before
    | none => before
  | c, x => if c.deletes x then [] else before

open Classical in
/-- The history after a script. -/
noncomputable def History.after (h : History) (c : Script) (i : Instance) (x : c.Reply)
    (i' : Instance) : History where
  epoch := if c.deletes x then h.epoch + 1 else h.epoch
  used := usedAfter h.used c x
  written := writtenAfter h.written c x
  bare := bareAfter h.bare c x i'
  lookups := lookupsAfter h.lookups c i
  consumptions := consumptionsAfter h.consumptions c x

/-! ## The system -/

/-- The store: the keys of the instance, the time, and the history. -/
structure Db where
  inst : Instance
  clock : ℕ
  hist : History

/-- The store after a script. -/
noncomputable def Db.after (db : Db) (c : Script) (x : c.Reply) (i' : Instance) : Db :=
  { db with inst := i', hist := db.hist.after c db.inst x i' }

@[simp] theorem Db.after_inst (db : Db) (c : Script) (x : c.Reply) (i' : Instance) :
    (db.after c x i').inst = i' := rfl

/-- The meaning of a call. A script whose reply is lost may have been run or not. -/
def Db.call (cfg : Service) : (c : Call) → Db → api.Ans c → Db → Prop
  | .redis c, db, x, db' =>
    (∃ y i', c.exec cfg db.inst y i' ∧ db' = db.after c y i' ∧ (x = some y ∨ x = none)) ∨
      (x = none ∧ db' = db)
  | .now, db, _, db' => db' = db
  | .control _, db, _, db' => db' = db
  | .dispatchRuntime, db, _, db' => db' = db

/-- What happens on its own: time passes, and other tokens enter and leave the
    ready set of the shard. -/
inductive Env
  | tick (t : ℕ)
  | othersReady (b : Bool)

/-- The moves of the environment. -/
def Db.env : Env → Db → Db → Prop
  | .tick t, db, db' => db.clock ≤ t ∧ db' = { db with clock := t }
  | .othersReady b, db, db' =>
    db' = { db with inst := { db.inst with othersReady := b, active := db.inst.active || b } }

/-- The workflows service over the keys of one instance. -/
def workflows (cfg : Service) : System api Db Kind WorkflowError Result Env where
  body := body cfg
  call := Db.call cfg
  env := Db.env

/-- The store before the instance was ever created. -/
def Db.Initial (db : Db) : Prop :=
  db.inst = .absent ∧ db.hist = ⟨0, ∅, ∅, False, [], []⟩

/-- A state of the service. -/
abbrev ServiceWorld := World api Db Kind WorkflowError Result

/-- The states that the service can reach. -/
abbrev Reachable (cfg : Service) : ServiceWorld → Prop := (workflows cfg).Reachable Db.Initial

/-- The states that the service can reach by steps that meet a condition. -/
abbrev ReachableWhen (cfg : Service) (ok : ServiceWorld → Label api Kind Env → Prop) :
    ServiceWorld → Prop :=
  (workflows cfg).ReachableWhen Db.Initial ok

/-- The states that the service can reach from a state on, by steps that meet a condition. -/
abbrev StepsWhen (cfg : Service) (ok : ServiceWorld → Label api Kind Env → Prop) :
    ServiceWorld → ServiceWorld → Prop :=
  (workflows cfg).StepsWhen ok

/-! ## Runs of one process after the other -/

/-- A store whose clock stands still, whose control database approves of everything and
    that loses no reply. -/
noncomputable def Db.answer (cfg : Service) (now version : ℕ) (runtime : RuntimeAnswer) (db : Db) :
    (c : Call) → api.Ans c × Db
  | .now => (now, db)
  | .redis c => let y := c.run cfg db.inst; (some y.1, db.after c y.1 y.2)
  | .control .activeVersion => (.ok version, db)
  | .control .workerNotDeleting => (.ok (), db)
  | .control (.activeWorkflowCurrent _) => (.ok (), db)
  | .control .workflowDef => (.ok (), db)
  | .dispatchRuntime => (runtime, db)

theorem Db.call_answer (cfg : Service) (now version : ℕ) (runtime : RuntimeAnswer) (c : Call)
    (db : Db) : Db.call cfg c db (db.answer cfg now version runtime c).1
      (db.answer cfg now version runtime c).2 := by
  cases c with
  | now => rfl
  | redis c => exact .inl ⟨_, _, .inl rfl, rfl, .inl rfl⟩
  | control q => cases q <;> rfl
  | dispatchRuntime => rfl

/-- A payload of five bytes. -/
def examplePayload : Payload := ⟨4, 5, by decide⟩

/-- The store before the instance was ever created, at time zero. -/
def Db.empty : Db := ⟨.absent, 0, ⟨0, ∅, ∅, False, [], []⟩⟩

/-- The service before anything was asked of it. -/
def ServiceWorld.initial : ServiceWorld := ⟨.empty, fun _ => none⟩

theorem ReachableWhen.initial (cfg : Service) (ok : ServiceWorld → Label api Kind Env → Prop) :
    ReachableWhen cfg ok .initial := .init ⟨rfl, rfl⟩

theorem Reachable.initial (cfg : Service) : Reachable cfg .initial := ReachableWhen.initial cfg _

/-- The world after a process has been started and has made some calls on its own. -/
noncomputable def ServiceWorld.alone (w : ServiceWorld) (cfg : Service) (i : ℕ) (k : Kind)
    (calls now version : ℕ) (runtime : RuntimeAnswer) : ServiceWorld :=
  let r := (body cfg i k).drive (fun c db => db.answer cfg now version runtime c) calls w.store
  World.setProc ⟨r.2, w.proc⟩ i ⟨k, r.1, true⟩

variable {cfg : Service} {ok : ServiceWorld → Label api Kind Env → Prop} {w : ServiceWorld} {i : ℕ}

theorem StepsWhen.alone (hcalls : ∀ w j c x, ok w (.call j c x)) {w' : ServiceWorld}
    (h : StepsWhen cfg ok w w') (hi : w'.proc i = none) (k : Kind) (hok : ok w' (.spawn i k))
    (calls now version : ℕ) (runtime : RuntimeAnswer) :
    StepsWhen cfg ok w (w'.alone cfg i k calls now version runtime) :=
  System.StepsWhen.start hcalls h hi hok
    (Prog.drive_runs (fun c db => db.call_answer cfg now version runtime c) calls _ _)

theorem ReachableWhen.alone (hcalls : ∀ w j c x, ok w (.call j c x)) (h : ReachableWhen cfg ok w)
    (hi : w.proc i = none) (k : Kind) (hok : ok w (.spawn i k)) (calls now version : ℕ)
    (runtime : RuntimeAnswer) : ReachableWhen cfg ok (w.alone cfg i k calls now version runtime) :=
  h.steps (StepsWhen.alone hcalls .refl hi k hok calls now version runtime)

theorem Reachable.alone (h : Reachable cfg w) (hi : w.proc i = none) (k : Kind)
    (calls now version : ℕ) (runtime : RuntimeAnswer) :
    Reachable cfg (w.alone cfg i k calls now version runtime) :=
  ReachableWhen.alone (fun _ _ _ _ => trivial) h hi k trivial calls now version runtime

/-- The world after a process has made some more calls on its own. -/
noncomputable def ServiceWorld.further (w : ServiceWorld) (cfg : Service) (i calls now version : ℕ)
    (runtime : RuntimeAnswer) : ServiceWorld :=
  match w.proc i with
  | none => w
  | some p =>
    let r := p.prog.drive (fun c db => db.answer cfg now version runtime c) calls w.store
    World.setProc ⟨r.2, w.proc⟩ i ⟨p.kind, r.1, true⟩

theorem Reachable.further (h : Reachable cfg w) {k : Kind} {p : ServiceM Result}
    (hi : w.proc i = some ⟨k, p, true⟩) (calls now version : ℕ) (runtime : RuntimeAnswer) :
    Reachable cfg (w.further cfg i calls now version runtime) := by
  rw [ServiceWorld.further, hi]
  exact h.steps (.resume (fun _ _ _ _ => trivial) .refl hi
    (Prog.drive_runs (fun c db => db.call_answer cfg now version runtime c) calls _ _))

section Conditions

variable {cfg : Service} {ok : ServiceWorld → Label api Kind Env → Prop} {P : Call → Db → Prop}
  (hP : ∀ w i c x, P c w.store → ok w (.call i c x)) {w w' : ServiceWorld} {i : ℕ} {k : Kind}
  {calls now version : ℕ} {runtime : RuntimeAnswer}
include hP

/-- A process that is started may make its first calls on its own, if they meet the condition. -/
theorem StepsWhen.alone_of_drives (h : StepsWhen cfg ok w w') (hi : w'.proc i = none)
    (hok : ok w' (.spawn i k))
    (hd : (body cfg i k).DrivesWhen P (fun c db => db.answer cfg now version runtime c) calls
      w'.store) : StepsWhen cfg ok w (w'.alone cfg i k calls now version runtime) :=
  System.StepsWhen.drives hP (fun c db => db.call_answer cfg now version runtime c) hd
    (h.step hok (.spawn i k hi))

/-- A process may make some more calls on its own, if they meet the condition. -/
theorem StepsWhen.further_of_drives (h : StepsWhen cfg ok w w') {p : ServiceM Result}
    (hi : w'.proc i = some ⟨k, p, true⟩)
    (hd : p.DrivesWhen P (fun c db => db.answer cfg now version runtime c) calls w'.store) :
    StepsWhen cfg ok w (w'.further cfg i calls now version runtime) := by
  have hw' : w' = World.setProc ⟨w'.store, w'.proc⟩ i ⟨k, p, true⟩ := by
    rw [World.setProc, ← hi, Function.update_eq_self]
  rw [ServiceWorld.further, hi]
  rw [hw'] at h
  exact .drives hP (fun c db => db.call_answer cfg now version runtime c) hd h

end Conditions

end Wdl.Workflow
