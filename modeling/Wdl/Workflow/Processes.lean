import Wdl.Workflow.Claims

/-!
# The processes keep the policy

Each process is verified on its own against what the others may do between its calls,
and `Policy.Sound.relyGuarantee` puts them together.

* A wait reads its record with its claim current (`Policy.Held`), looks for an event
  (`Policy.Sound.findBufferedEvent_safe`), and commits what it found.
* A dispatch task claims at most once, under its own number.
* The others need not have seen anything.
-/

namespace Wdl.Workflow

open Prog Api ServiceM

variable {cfg : Service} {i : Instance} {raw : Option (JsonText StepRecord)} {req : StepRequest}
  {type : EventType}

namespace Policy

variable {P : Policy} {n : ℕ} {k : Kind} {s s' : Db}

/-- The scripts that a wait or a sleep calls before the commit that completes it. -/
def looks : Script → Prop
  | .readStepRecord .. | .readStepPayload .. | .scanEventIndex .. | .readEvents ..
  | .readPayload .. | .cleanupStaleEventIndex .. => True
  | .commitStepRecord _ _ _ _ a => a.eventRecord = none ∧ a.stateStatus = .waiting
  | _ => False

/-- The policy holds when the steps meet the condition `ok`. -/
structure Sound (P : Policy) (cfg : Service) (ok : ServiceWorld → Label api Kind Env → Prop) :
    Prop where
  other : ∀ i k j k' s s', i ≠ j → P.compat i k j k' → StoreInv cfg s → P.Guar cfg i k s s' →
    P.frame k' s s' ∧ ∀ t ∈ s.hist.used, Claimed t s' → P.keep k' t s s'
  own : ∀ i k c s y inst', (∃ req, k = .registerSleep req ∨ k = .registerWait req) → looks c →
    Calls cfg i k c → StoreInv cfg s → Effect cfg s.inst c y inst' →
    P.frame k s (s.after c y inst') ∧
      ∀ t ∈ s.hist.used, Claimed t (s.after c y inst') → P.keep k t s (s.after c y inst')
  env : ∀ w e s' k, ok w (.env e) → Db.env e w.store s' →
    P.frame k w.store s' ∧ ∀ t, P.keep k t w.store s'
  spawn_compat : ∀ w i k, ReachableWhen cfg ok w → w.proc i = none → ok w (.spawn i k) →
    ∀ j p, w.proc j = some p → p.Running → P.compat i k j p.kind ∧ P.compat j p.kind i k
  spawn_start : ∀ w i k, ReachableWhen cfg ok w → StoreInv cfg w.store → w.proc i = none →
    ok w (.spawn i k) → P.start k w.store

/-- The process is safe from every store in which `A` holds. -/
abbrev SafeFrom (P : Policy) (cfg : Service) (i : ℕ) (k : Kind) {α : Type} (A : Db → Prop)
    (p : ServiceM α) : Prop :=
  Prog.SafeFrom (Db.call cfg) (P.Rely cfg i k) (P.Guar cfg i k) (fun _ _ => True) A p

/-- What the others do keeps the assertion, and the invariant of the store is part of it. -/
structure Steady (P : Policy) (cfg : Service) (i : ℕ) (k : Kind) (A : Db → Prop) : Prop where
  stable : ∀ s t, A s → P.Rely cfg i k s t → A t
  inv : ∀ s, A s → StoreInv cfg s

theorem steady_inv (P : Policy) (cfg : Service) (i : ℕ) (k : Kind) :
    P.Steady cfg i k (StoreInv cfg) :=
  ⟨fun _ _ hs hr => hr.inv hs, fun _ hs => hs⟩

variable {ok : ServiceWorld → Label api Kind Env → Prop} {α β : Type} {A : Db → Prop}

theorem Steady.and (hA : P.Steady cfg n k A) {X : Db → Prop}
    (hX : ∀ s t, X s → P.Rely cfg n k s t → X t) : P.Steady cfg n k fun s => A s ∧ X s :=
  ⟨fun s t hs hr => ⟨hA.stable s t hs.1 hr, hX s t hs.2 hr⟩, fun s hs => hA.inv s hs.1⟩

theorem SafeFrom.ret {a : α} : P.SafeFrom cfg n k A (.ret a) := fun _ _ _ _ => trivial

theorem SafeFrom.fail {e : WorkflowError} : P.SafeFrom cfg n k A (.fail e : ServiceM α) :=
  fun _ _ _ _ => trivial

theorem SafeFrom.now_bind {f : ℕ → ServiceM β} (hA : P.Steady cfg n k A)
    (h : ∀ t, P.SafeFrom cfg n k A (f t)) : P.SafeFrom cfg n k A (now.bind f) := by
  refine Prog.SafeFrom.of_call hA.stable (fun s x t hs hc => ?_) fun x => h x
  obtain rfl : t = s := hc
  exact ⟨.inl rfl, hs⟩

theorem SafeFrom.ofExcept_bind {e : Except WorkflowError α} {f : α → ServiceM β}
    (h : ∀ a, e = .ok a → P.SafeFrom cfg n k A (f a)) :
    P.SafeFrom cfg n k A ((ofExcept e).bind f) := by
  cases e with
  | error e => exact .fail
  | ok a => exact h a rfl

variable {c : Script}

theorem SafeFrom.eval_bind {f : c.Reply → ServiceM β} {B : c.Reply → Db → Prop}
    (hA : P.Steady cfg n k A) (hc : Calls cfg n k c) (ho : ∀ s, A s → P.Observed cfg n k c s)
    (hB : ∀ s y inst', A s → c.exec cfg s.inst y inst' → B y (s.after c y inst'))
    (h : ∀ y, P.SafeFrom cfg n k (B y) (f y)) : P.SafeFrom cfg n k A ((eval c).bind f) := by
  refine Prog.SafeFrom.of_call (B := fun x s => ∀ y, x = some y → B y s) hA.stable
    (fun s x t hs hcall => ?_) fun x => ?_
  · rcases hcall with ⟨y, inst', hexec, rfl, hx⟩ | ⟨rfl, rfl⟩
    · refine ⟨.inr ⟨c, y, inst', hc, ho s hs, c.exec_effect hexec, rfl⟩, fun y' hy' => ?_⟩
      rcases hx with rfl | rfl
      · cases hy'
        exact hB s y inst' hs hexec
      · cases hy'
    · exact ⟨.inl rfl, nofun⟩
  · cases x with
    | none => exact SafeFrom.fail
    | some y => exact fun s hs => h y s (hs y rfl)

variable {p : ServiceM α}

theorem SafeFrom.of_makes {Q : Script → Prop} (hp : Makes Q p)
    (hQ : ∀ c, Q c → Calls cfg n k c ∧ ∀ s, P.Observed cfg n k c s) : P.SafeFrom cfg n k A p := by
  refine fun s _ => Prog.Safe.of_emits (call_answers cfg) (fun c s x t hc hcall => ?_) hp s
  rcases Db.call_cases hcall with rfl | ⟨script, y, inst', rfl, heff, rfl⟩
  · exact .inl rfl
  · exact .inr ⟨script, y, inst', (hQ script hc).1, (hQ script hc).2 s, heff, rfl⟩

theorem Observed.of_reads (h : c.reads) : P.Observed cfg n k c s := by
  cases c <;> trivial

theorem SafeFrom.bind_ret {g : α → β} (h : P.SafeFrom cfg n k A p) :
    P.SafeFrom cfg n k A (p.bind fun a => .ret (g a)) := by
  refine Prog.SafeFrom.bind (B := fun _ _ => True) (Rely.refl P cfg n k)
    (fun s hs => (h s hs).mono fun r _ _ => ?_) fun _ => SafeFrom.ret
  cases r <;> trivial

/-- What one process does is within what the others rely on. -/
theorem Sound.rely_other (h : P.Sound cfg ok) {i j : ℕ} {k k' : Kind} (hne : i ≠ j)
    (hcomp : P.compat i k j k') (hinv : StoreInv cfg s) (hg : P.Guar cfg i k s s') :
    P.Rely cfg j k' s s' where
  inv _ := hg.inv hinv
  fresh := hg.fresh hne
  used := hg.used
  lookups := hg.lookups
  frame := (h.other i k j k' s s' hne hcomp hinv hg).1
  claim t ht hc :=
    ⟨hg.claimed ht hc, hg.eventsKept hinv hc, (h.other i k j k' s s' hne hcomp hinv hg).2 t ht hc⟩

variable {y : c.Reply} {inst' : Instance}

/-- What a wait or a sleep does before its last commit is within what it relies on. -/
theorem Sound.rely_own (h : P.Sound cfg ok)
    (hk : ∃ req, k = .registerSleep req ∨ k = .registerWait req)
    (hl : looks c) (hc : Calls cfg n k c)
    (ho : P.Observed cfg n k c s) (hinv : StoreInv cfg s) (heff : Effect cfg s.inst c y inst') :
    P.Rely cfg n k s (s.after c y inst') := by
  have hg : P.Guar cfg n k s (s.after c y inst') := .inr ⟨c, y, inst', hc, ho, heff, rfl⟩
  obtain ⟨hframe, hkeep⟩ := h.own n k c s y inst' hk hl hc hinv heff
  refine ⟨fun _ => hg.inv hinv, fun hf hused => ?_, hg.used, hg.lookups, hframe,
    fun t ht hcl => ⟨hg.claimed ht hcl, hg.eventsKept hinv hcl, hkeep t ht hcl⟩⟩
  rcases usedAfter_cases hused with hused | ⟨_, _, _, _, _, rfl⟩
  · exact hf hused
  · exact hl

/-- A script that a wait or a sleep reads with, of whose answer `B` is known. -/
theorem Sound.look_bind (h : P.Sound cfg ok)
    (hk : ∃ req, k = .registerSleep req ∨ k = .registerWait req)
    (hA : P.Steady cfg n k A) {f : c.Reply → ServiceM β} {B : c.Reply → Db → Prop} (hl : looks c)
    (hr : c.reads) (hc : Calls cfg n k c)
    (hB : ∀ s y, A s → y = (c.run cfg s.inst).1 → P.Rely cfg n k s (s.after c y s.inst) →
      B y (s.after c y s.inst)) (hf : ∀ y, P.SafeFrom cfg n k (B y) (f y)) :
    P.SafeFrom cfg n k A ((eval c).bind f) := by
  refine .eval_bind hA hc (fun _ _ => .of_reads hr) (fun s y inst' hs hexec => ?_) hf
  obtain ⟨hy, rfl⟩ := Script.exec_of_reads hexec hr
  exact hB s y hs hy (h.rely_own hk hl hc (.of_reads hr) (hA.inv s hs) (c.exec_effect hexec))

/-! ### Waits and sleeps -/

/-- The process has read the record of its step, with its claim current, and the record
    was this one. -/
def Held (P : Policy) (cfg : Service) (i : ℕ) (k : Kind) (req : StepRequest)
    (raw : Option (JsonText StepRecord)) (s : Db) : Prop :=
  StoreInv cfg s ∧ ∃ s₀ now, StoreInv cfg s₀ ∧
    readStepRecord req.generation req.runToken now req.ordinal s₀.inst = .ok raw ∧
    P.Rely cfg i k s₀ s

theorem steady_held (req : StepRequest) (raw : Option (JsonText StepRecord)) :
    P.Steady cfg n k (P.Held cfg n k req raw) := by
  refine ⟨fun s t hs hr => ?_, fun s hs => hs.1⟩
  obtain ⟨hinv, s₀, now, hinv₀, hread, hr₀⟩ := hs
  exact ⟨hr.inv hinv, s₀, now, hinv₀, hread, hr₀.trans hr⟩

theorem readStepRecord_ok {g t now o : ℕ} (h : readStepRecord g t now o i = .ok raw) :
    (∃ st, claimFence g t now i = .ok st) ∧ raw = i.steps.lookup o := by
  unfold readStepRecord at h
  cases hf : claimFence g t now i with
  | error code => rw [hf] at h; cases h
  | ok st =>
    rw [hf] at h
    exact ⟨⟨st, rfl⟩, (Except.ok.inj h).symm⟩

theorem Held.used (h : P.Held cfg n k req raw s) :
    req.runToken ∈ s.hist.used := by
  obtain ⟨-, s₀, now, hinv₀, hread, hr⟩ := h
  obtain ⟨⟨st, hst⟩, -⟩ := readStepRecord_ok hread
  obtain ⟨hs, ht, -⟩ := claimFence_ok hst
  exact hr.used _ (hinv₀.token_used _ ⟨st, hs, ht⟩)

/-- Read the record of the step, and go on with the claim held. -/
theorem Sound.readStepRecord_safe (h : P.Sound cfg ok)
    (hk : k = .registerSleep req ∨ k = .registerWait req)
    {f : Option (JsonText StepRecord) → ServiceM β}
    (hf : ∀ raw, P.SafeFrom cfg n k (P.Held cfg n k req raw) (f raw)) :
    P.SafeFrom cfg n k (StoreInv cfg) ((readStepRecordForClaim req).bind f) := by
  rw [readStepRecordForClaim, bind_eq, bind_assoc]
  refine .now_bind (steady_inv P cfg n k) fun now => ?_
  rw [bind_eq, bind_assoc]
  refine h.look_bind (B := fun y s => ∀ raw, y = .ok raw → P.Held cfg n k req raw s) ⟨req, hk⟩
    (steady_inv P cfg n k) trivial trivial trivial (fun s y hs hread hrely raw hy => ?_) fun y => ?_
  · exact ⟨hrely.inv hs, s, now, hs, hread.symm.trans hy, hrely⟩
  · cases y with
    | error code => exact .fail
    | ok raw => exact fun s hs => hf raw s (hs raw rfl)

/-- The event of a record commit, if it has one, was found. -/
def FoundEvent (P : Policy) (cfg : Service) (i : ℕ) (k : Kind) (req : StepRequest)
    (a : StepRecordCommit) (s : Db) : Prop :=
  ∀ field json, a.eventRecord = some (field, json) →
    ∃ type record payload now, k = .registerWait req ∧ waitEventType req = .ok type ∧
      a = completedWaitCommit cfg req (some (field, record)) payload now ∧
      P.Found cfg i k req type field record payload s

variable {a : StepRecordCommit}

theorem Held.observed {now : ℕ} (h : P.Held cfg n k req raw s)
    (hraw : Unfinished raw) (ha : P.FoundEvent cfg n k req a s) :
    P.Observed cfg n k (.commitStepRecord req.generation req.runToken now req.ordinal a) s := by
  obtain ⟨-, s₀, now₀, hinv₀, hread, hr⟩ := h
  refine ⟨⟨s₀, now₀, raw, hinv₀, hread, hraw, hr⟩, fun field json he => ?_⟩
  obtain ⟨type, record, payload, now', hk, htype, rfl, hfound⟩ := ha field json he
  exact ⟨req, type, record, payload, now', hk, rfl, rfl, htype, rfl, hfound⟩

variable {f : Unit → ServiceM β}

/-- Commit a record, and go on. -/
theorem commitStepRecord_safe {B : Db → Prop} (hA : P.Steady cfg n k A)
    (hheld : ∀ s, A s → P.Held cfg n k req raw s) (hraw : Unfinished raw)
    (hcalls : ∀ now, Calls cfg n k
      (.commitStepRecord req.generation req.runToken now req.ordinal a))
    (ha : ∀ s, A s → P.FoundEvent cfg n k req a s)
    (hB : ∀ s now y inst', A s →
      Effect cfg s.inst (.commitStepRecord req.generation req.runToken now req.ordinal a) y inst' →
      B (s.after (.commitStepRecord req.generation req.runToken now req.ordinal a) y inst'))
    (hf : ∀ u, P.SafeFrom cfg n k B (f u)) :
    P.SafeFrom cfg n k A ((Api.commitStepRecord cfg req a).bind f) := by
  rw [Api.commitStepRecord, bind_eq, bind_assoc]
  refine .now_bind hA fun now => ?_
  rw [bind_eq, bind_assoc]
  refine .eval_bind (B := fun _ => B) hA (hcalls now)
    (fun s hs => (hheld s hs).observed hraw (ha s hs))
    (fun s y inst' hs hexec => hB s now y inst' hs (Script.exec_effect _ hexec)) fun y => ?_
  exact .ofExcept_bind fun u _ => hf u

/-- A sleep commits at most once, after it has read an unfinished record. -/
theorem Sound.registerSleep_safe (h : P.Sound cfg ok) (req : StepRequest) :
    P.SafeFrom cfg n (.registerSleep req) (StoreInv cfg) (body cfg n (.registerSleep req)) := by
  have commit : ∀ {raw a b}, Unfinished raw → SleepCommit cfg req a →
      P.SafeFrom cfg n (.registerSleep req) (P.Held cfg n (.registerSleep req) req raw)
        ((Api.commitStepRecord cfg req a).bind fun _ => .ret b : ServiceM StepAnswer) := by
    intro raw a b hraw ha
    refine commitStepRecord_safe (B := fun _ => True) (steady_held req raw) (fun s hs => hs) hraw
      (fun now => ⟨req, ⟨rfl, rfl, rfl⟩, .inl ⟨rfl, ha⟩⟩) (fun s _ field json he => ?_)
      (fun _ _ _ _ _ _ => trivial) fun _ => .ret
    obtain ⟨kind, record, due, rfl, -⟩ := ha
    cases he
  refine .bind_ret (.ofExcept_bind fun _ _ => .ofExcept_bind fun kind hkind =>
    .ofExcept_bind fun due _ => h.readStepRecord_safe (.inl rfl) fun raw =>
    .now_bind (steady_held req raw) fun t => ?_)
  have hk := sleepKind_ok hkind
  have complete : ∀ due, Unfinished raw → P.SafeFrom cfg n (.registerSleep req)
      (P.Held cfg n (.registerSleep req) req raw) (completeSleep cfg req kind due) :=
    fun due hraw => .now_bind (steady_held req raw) fun t => commit hraw
      ⟨kind, _, none, rfl, record_matches req kind .completed 1, hk, .inl ⟨rfl, _, _, rfl⟩⟩
  cases raw with
  | none =>
    have hraw : Unfinished none := fun r hr => (nomatch hr)
    dsimp only
    split
    · exact complete due hraw
    · exact commit hraw
        ⟨kind, _, some due, rfl, record_matches req kind .waiting 1, hk, .inr ⟨due, rfl, rfl, rfl⟩⟩
  | some r =>
    refine .ofExcept_bind fun _ hv => ?_
    split
    · exact .ret
    · rename_i hst
      have hraw : Unfinished (some r) := fun r' hr' => by rw [← Option.some.inj hr']; exact hst
      split
      · exact .fail
      · rename_i stored hdue
        split
        · exact commit hraw ⟨kind, r.val, some stored, rfl, verifyStepRecord_ok hv, hk,
            .inr ⟨stored, rfl, hst, hdue⟩⟩
        · exact complete stored hraw
    · exact .fail

/-- The wait looked at the index in the store `s₁`, and saw these members. -/
def Scanned (P : Policy) (cfg : Service) (i : ℕ) (k : Kind) (req : StepRequest) (type : EventType)
    (members : List (List Char)) (s₁ s : Db) : Prop :=
  StoreInv cfg s₁ ∧ req.runToken ∈ s₁.hist.used ∧
    (⟨req.runToken, req.ordinal, s₁.inst⟩ : Lookup) ∈ s.hist.lookups ∧
    members = indexRange s₁.inst.eventIndex (eventTypeIndexPrefix type)
      Script.eventIndexScanBatchSize ∧ P.Rely cfg i k s₁ s

theorem Scanned.stable {members : List (List Char)} {s₁ s s' : Db}
    (h : P.Scanned cfg n k req type members s₁ s) (hr : P.Rely cfg n k s s') :
    P.Scanned cfg n k req type members s₁ s' :=
  ⟨h.1, h.2.1, hr.lookups _ h.2.2.1, h.2.2.2.1, h.2.2.2.2.trans hr⟩

section Waits

variable (h : P.Sound cfg ok) (hk : k = .registerWait req) (hA : P.Steady cfg n k A)
  (htype : waitEventType req = .ok type)

include h hk hA

/-- A call that a wait makes before its last commit keeps what it relies on. -/
theorem Sound.steady_own (hl : looks c) (hc : Calls cfg n k c) (ho : P.Observed cfg n k c s)
    (hs : A s) (heff : Effect cfg s.inst c y inst') : A (s.after c y inst') :=
  hA.stable s _ hs (h.rely_own ⟨req, .inr hk⟩ hl hc ho (hA.inv s hs) heff)

include htype

theorem Sound.cleanupStale_safe {observations : List StaleEventIndexObservation}
    (hobs : ∀ o ∈ observations, o.Sound type) (hf : ∀ u, P.SafeFrom cfg n k A (f u)) :
    P.SafeFrom cfg n k A ((cleanupStaleEventIndexMembers cfg req observations).bind f) := by
  unfold cleanupStaleEventIndexMembers
  split
  · exact hf ()
  · rw [bind_eq, bind_assoc]
    refine .now_bind hA fun now => ?_
    rw [bind_eq, bind_assoc]
    refine .eval_bind (B := fun _ => A) hA ⟨req, type, hk, htype, hobs⟩ (fun _ _ => trivial)
      (fun s y inst' hs hexec => ?_) fun y => .ofExcept_bind fun u _ => hf u
    exact h.steady_own hk hA trivial ⟨req, type, hk, htype, hobs⟩ trivial hs
      (Script.exec_effect _ hexec)

/-- Read the payload of the event that was picked in the store `s₂`, and go on with it. -/
theorem Sound.takeEvent_safe {stale : List StaleEventIndexObservation} {field : ℕ}
    {record : EventRecord} {s₂ : Db} {f : Option (ℕ × EventRecord × Payload) → ServiceM β}
    {B : Payload → Db → Prop} (hstale : ∀ o ∈ stale, o.Sound type)
    (hB : ∀ payload s₃ s, A s → P.Rely cfg n k s₂ s₃ →
      s₃.inst.payloads.lookup record.payloadRef = some payload → P.Rely cfg n k s₃ s → B payload s)
    (hf : ∀ payload, P.SafeFrom cfg n k (B payload) (f (some (field, record, payload)))) :
    P.SafeFrom cfg n k (fun s => A s ∧ P.Rely cfg n k s₂ s)
      ((do
        let payload : Option Payload ← eval (.readPayload record.payloadRef)
        match payload with
        | none => .fail (.payloadMissing ("Workflow event payload " ++ refText record.payloadRef ++
            " is missing"))
        | some payload => do
          cleanupStaleEventIndexMembers cfg req stale
          .ret (some (field, record, payload)) :
        ServiceM (Option (ℕ × EventRecord × Payload))).bind f) := by
  rw [bind_eq, bind_assoc]
  refine h.look_bind (B := fun reply s => A s ∧ ∃ s₃, P.Rely cfg n k s₂ s₃ ∧
      reply = s₃.inst.payloads.lookup record.payloadRef ∧ P.Rely cfg n k s₃ s) ⟨req, .inr hk⟩
    (hA.and fun _ _ hs hr => hs.trans hr) trivial trivial trivial
    (fun s reply hs hreply hrely => ⟨hA.stable _ _ hs.1 hrely, s, hs.2, hreply, hrely⟩)
    fun reply => ?_
  rintro s₀ ⟨hs₀, s₃, hr₂₃, hreply, hr₃⟩
  cases reply with
  | none => exact SafeFrom.fail s₀ hs₀
  | some payload =>
    refine (?_ : P.SafeFrom cfg n k (fun s => A s ∧ P.Rely cfg n k s₃ s) _) s₀ ⟨hs₀, hr₃⟩
    dsimp only
    rw [bind_eq, bind_assoc]
    exact h.cleanupStale_safe hk (hA.and fun _ _ hs hr => hs.trans hr) htype hstale fun _ =>
      (hf payload).mono fun s hs => hB payload s₃ s hs.1 hr₂₃ hreply.symm hs.2

variable (hheld : ∀ s, A s → P.Held cfg n k req raw s)

include hheld

/-- Look for an event, and go on with the one that was found, or with none. -/
theorem Sound.findBufferedEvent_safe {f : Option (ℕ × EventRecord × Payload) → ServiceM β}
    (hnone : P.SafeFrom cfg n k A (f none))
    (hsome : ∀ field record payload, record.type = type → record.Unconsumed →
      P.SafeFrom cfg n k (fun s => A s ∧ P.Found cfg n k req type field record payload s)
        (f (some (field, record, payload))))
    (pages staleSeen : ℕ) :
    P.SafeFrom cfg n k A ((findBufferedEventFrom cfg req type pages staleSeen).bind f) := by
  induction pages generalizing staleSeen with
  | zero => exact .fail
  | succ pages ih =>
    rw [findBufferedEventFrom, bind_eq, bind_assoc]
    refine h.look_bind (B := fun members s => A s ∧ ∃ s₁, P.Scanned cfg n k req type members s₁ s)
      ⟨req, .inr hk⟩ hA trivial trivial ⟨req, type, hk, rfl, rfl, htype, rfl⟩
      (fun s members hs hm hrely => ⟨hA.stable _ _ hs hrely, s, hA.inv s hs, (hheld s hs).used,
        List.mem_cons_self, hm, hrely⟩) fun members => ?_
    -- what follows starts from a page of the index
    rintro s₀ ⟨hs₀, s₁, hscanned⟩
    refine (?_ : P.SafeFrom cfg n k (fun s => A s ∧ P.Scanned cfg n k req type members s₁ s) _) s₀
      ⟨hs₀, hscanned⟩
    have hrange : ∀ m ∈ (members : List (List Char)), eventTypeIndexPrefix type ≤ m ∧
        m ≤ eventTypeIndexPrefix type ++ ['~'] := by
      have hm : members = _ := hscanned.2.2.2.1
      rw [hm]
      exact fun m hm => indexRange_mem hm
    -- going on to the next page
    have next : ∀ stale : List StaleEventIndexObservation, (∀ o ∈ stale, o.Sound type) →
        ∀ seen, P.SafeFrom cfg n k A
          (((cleanupStaleEventIndexMembers cfg req stale).bind fun _ =>
            if eventIndexStaleScanLimit ≤ seen then .fail tooManyStaleMembers
            else findBufferedEventFrom cfg req type pages seen).bind f) := by
      intro stale hstale seen
      rw [bind_assoc]
      refine h.cleanupStale_safe hk hA htype hstale fun _ => ?_
      split
      · exact .fail
      · exact ih seen
    split
    · exact hnone.mono fun s hs => hs.1
    · split
      · exact (next _ (malformedMembers_sound hrange) _).mono fun s hs => hs.1
      · rw [bind_eq, bind_assoc]
        refine h.look_bind (B := fun raw s => A s ∧ ∃ s₂ : Db, raw = ((eventCandidates members).map
            Prod.snd).map s₂.inst.events.lookup ∧ P.Scanned cfg n k req type members s₁ s₂ ∧
            P.Rely cfg n k s₂ s) ⟨req, .inr hk⟩ (hA.and fun _ _ hs hr => hs.stable hr) trivial
          trivial trivial
          (fun s raw hs hraw hrely => ⟨hA.stable _ _ hs.1 hrely, s, hraw, hs.2, hrely⟩)
          fun raw => ?_
        rintro s₀ ⟨hs₀, s₂, hraw, hscanned₂, hrely₂⟩
        subst hraw
        have hpick := pickEvent_sound
          (page_mem hrange (((eventCandidates members).map Prod.snd).map s₂.inst.events.lookup))
          (malformedMembers_sound hrange)
        split
        · rename_i stale field record hp
          rw [hp] at hpick
          obtain ⟨ht, hu, -⟩ := hpick.2 field record rfl
          obtain ⟨hinv₁, hused, hlook, hmem, hr₁₂⟩ := hscanned₂
          refine h.takeEvent_safe hk hA htype hpick.1 (fun payload s₃ s hs hr₂₃ hpay hr₃ => ?_)
            (fun payload => hsome field record payload ht hu) s₀ ⟨hs₀, hrely₂⟩
          exact ⟨hs, s₁, s₂, s₃, members, stale, hinv₁, hused,
            (hr₂₃.trans hr₃).lookups _ hlook, hmem, hr₁₂, hp, hr₂₃, hpay, hr₃⟩
        · rename_i stale hp
          rw [hp] at hpick
          exact next stale hpick.1 _ s₀ hs₀

variable (hraw : Unfinished raw)

include hraw

omit h in
/-- Complete a wait with an event that was found, or without one. -/
theorem completeWait_safe {event : Option (ℕ × EventRecord)} {output : Payload}
    (hevent : ∀ field record, event = some (field, record) → record.type = type ∧
      record.Unconsumed ∧ ∀ s, A s → P.Found cfg n k req type field record output s) :
    P.SafeFrom cfg n k A (completeWaitWithPayload cfg req event output) := by
  refine .now_bind hA fun t => .ofExcept_bind fun json hjson => ?_
  obtain rfl := resultJson_ok hjson
  refine commitStepRecord_safe (B := fun _ => True) hA hheld hraw (fun now => ?_)
    (fun s hs field json' he => ?_) (fun _ _ _ _ _ _ => trivial) fun _ => .ret
  · exact ⟨req, ⟨rfl, rfl, rfl⟩, .inr ⟨hk, .inr ⟨event, json, t, type, rfl, htype,
      fun field record he => ⟨(hevent field record he).1, (hevent field record he).2.1⟩⟩⟩⟩
  · obtain ⟨⟨field', record⟩, rfl, he'⟩ := Option.map_eq_some_iff.1 he
    obtain ⟨rfl, -⟩ := Prod.mk.inj he'
    exact ⟨type, record, json, t, hk, htype, rfl, (hevent _ record rfl).2.2 s hs⟩

/-- Look for an event and complete the wait with it, or go on without. -/
theorem Sound.findAndComplete_safe {otherwise : ServiceM StepAnswer}
    (ho : P.SafeFrom cfg n k A otherwise) : P.SafeFrom cfg n k A
      ((findBufferedEvent cfg req type).bind fun found => completeOr cfg req found otherwise) := by
  refine h.findBufferedEvent_safe hk hA htype hheld ho (fun field record payload ht hu => ?_) _ _
  have hA' : P.Steady cfg n k fun s => A s ∧ P.Found cfg n k req type field record payload s := by
    refine hA.and fun s t hs hr => ?_
    obtain ⟨s₁, s₂, s₃, members, stale, hinv, hused, hlook, hm, h₁₂, hp, h₂₃, hpay, h₃⟩ := hs
    exact ⟨s₁, s₂, s₃, members, stale, hinv, hused, hr.lookups _ hlook, hm, h₁₂, hp, h₂₃, hpay,
      h₃.trans hr⟩
  refine completeWait_safe hk hA' htype (fun s hs => hheld s hs.1) hraw fun field' record' he => ?_
  obtain ⟨rfl, rfl⟩ := Prod.mk.inj (Option.some.inj he)
  exact ⟨ht, hu, fun s hs => hs.2⟩

end Waits

/-- A wait only commits after it has read an unfinished record, and only consumes an event
    that it has found. -/
theorem Sound.registerWait_safe (h : P.Sound cfg ok) (req : StepRequest) :
    P.SafeFrom cfg n (.registerWait req) (StoreInv cfg) (body cfg n (.registerWait req)) := by
  have register : ∀ {raw record type} (t : ℕ), Unfinished raw → waitEventType req = .ok type →
      req.matches record .waitForEvent = true → record.status = .waiting →
      P.SafeFrom cfg n (.registerWait req) (P.Held cfg n (.registerWait req) req raw)
        (expireOrRegister cfg req record type t) := by
    intro raw record type t hraw htype hm hst
    have hA : P.Steady cfg n (.registerWait req) (P.Held cfg n (.registerWait req) req raw) :=
      steady_held req raw
    unfold expireOrRegister
    split
    · exact completeWait_safe rfl hA htype (fun s hs => hs) hraw nofun
    · have hcalls : ∀ now, Calls cfg n (.registerWait req) (.commitStepRecord req.generation
          req.runToken now req.ordinal (waitingCommit cfg record record.dueAtMs type)) :=
        fun now => ⟨req, ⟨rfl, rfl, rfl⟩, .inr ⟨rfl, .inl ⟨record, type, rfl, htype, hm, hst⟩⟩⟩
      have hnoEvent : ∀ s, P.FoundEvent cfg n (.registerWait req) req
          (waitingCommit cfg record record.dueAtMs type) s := fun s _ _ he => (nomatch he)
      refine commitStepRecord_safe hA (fun s hs => hs) hraw hcalls (fun s _ => hnoEvent s)
        (fun s now y inst' hs heff => ?_)
        fun _ => h.findAndComplete_safe rfl hA htype (fun s hs => hs) hraw .ret
      exact h.steady_own rfl hA ⟨rfl, rfl⟩ (hcalls now) (hs.observed hraw (hnoEvent s)) hs heff
  refine .bind_ret (.ofExcept_bind fun _ _ => .ofExcept_bind fun type htype =>
    .ofExcept_bind fun due _ => h.readStepRecord_safe (.inr rfl) fun raw =>
    .now_bind (steady_held req raw) fun t => ?_)
  cases raw with
  | none =>
    have hraw : Unfinished none := fun r hr => (nomatch hr)
    exact h.findAndComplete_safe rfl (steady_held req none) htype (fun s hs => hs) hraw
      (register t hraw htype (record_matches req .waitForEvent .waiting 1) rfl)
  | some r =>
    refine .ofExcept_bind fun _ hv => ?_
    split
    · refine .bind_ret (.of_makes (storedOutcome_reads ..) fun c hc => ⟨hc.2, ?_⟩)
      exact fun s => .of_reads hc.1
    · rename_i hst
      have hraw : Unfinished (some r) := fun r' hr' => by rw [← Option.some.inj hr']; exact hst
      exact h.findAndComplete_safe rfl (steady_held req (some r)) htype (fun s hs => hs) hraw
        (register t hraw htype (verifyStepRecord_ok hv) hst)
    · exact .fail

/-! ### The other processes -/

/-- A dispatch task claims at most once, under a token that nobody has used. -/
theorem dispatch_safe : P.SafeFrom cfg n .dispatch (fun s => StoreInv cfg s ∧ n ∉ s.hist.used)
    (body cfg n .dispatch) := by
  have hA : P.Steady cfg n .dispatch fun s => StoreInv cfg s ∧ n ∉ s.hist.used :=
    ⟨fun s t hs hr => ⟨hr.inv hs.1, hr.fresh hs.2⟩, fun s hs => hs.1⟩
  -- the scripts that need no observation
  have free : ∀ {p : ServiceM Unit},
      Makes (fun c => Calls cfg n .dispatch c ∧ ∀ s, P.Observed cfg n .dispatch c s) p →
      P.SafeFrom cfg n .dispatch (fun s => StoreInv cfg s ∧ n ∉ s.hist.used) p :=
    fun hp => .of_makes hp fun _ h => h
  have run : ∀ st : State, st.status = .queued ∨ st.status = .waiting →
      P.SafeFrom cfg n .dispatch (fun s => StoreInv cfg s ∧ n ∉ s.hist.used)
        (claimAndRun cfg n st) := by
    intro st hst
    refine .now_bind hA fun t => .eval_bind (B := fun _ _ => True) hA
      ⟨rfl, rfl, rfl, hst⟩ (fun _ hs => hs.2) (fun _ _ _ _ _ => trivial) fun claimed => ?_
    split
    · refine .of_makes (finishClaimedWorkflow_calls ⟨st, n⟩ hst) fun c hc => ⟨hc.calls, ?_⟩
      intro s
      cases c <;> trivial
    · exact .ret
  refine .bind_ret (.eval_bind
    (B := fun _ s => StoreInv cfg s ∧ n ∉ s.hist.used) hA trivial (fun _ _ => trivial)
    (fun s y inst' hs hexec => ⟨?_, hs.2⟩) fun reply => ?_)
  · have hg : P.Guar cfg n .dispatch s (s.after .readReadyStateAndParams y inst') :=
      .inr ⟨_, y, inst', trivial, trivial, Script.exec_effect _ hexec, rfl⟩
    exact hg.inv hs.1
  · split
    · exact free (.eval_bind ⟨trivial, fun _ => trivial⟩ fun _ _ => trivial)
    · split
      · exact free (.now_bind fun _ =>
          .eval_bind ⟨trivial, fun _ => trivial⟩ fun _ _ => trivial)
      · exact free (.eval_bind ⟨trivial, fun _ => trivial⟩ fun _ _ => trivial)
      · exact free (.eval_bind ⟨trivial, fun _ => trivial⟩ fun _ _ => trivial)
      · exact free (.eval_bind ⟨trivial, fun _ => trivial⟩ fun _ _ => trivial)
      · exact .ret
      · exact .ret
      · rename_i hst
        exact .ofExcept_bind fun _ _ => run _ (.inl hst)
      · rename_i hst
        exact .ofExcept_bind fun _ _ => run _ (.inr hst)

theorem steady_start (P : Policy) (cfg : Service) (i : ℕ) (k : Kind) :
    P.Steady cfg i k fun s => StoreInv cfg s ∧ P.start k s :=
  ⟨fun s t hs hr => ⟨hr.inv hs.1, P.start_frame k s t hr.frame hs.2⟩, fun _ hs => hs.1⟩

theorem commitStepSuccess_safe (req : StepRequest) :
    P.SafeFrom cfg n (.commitStepSuccess req)
      (fun s => StoreInv cfg s ∧ P.start (.commitStepSuccess req) s)
      (body cfg n (.commitStepSuccess req)) := by
  have hA := steady_start P cfg n (.commitStepSuccess req)
  refine .bind_ret (.ofExcept_bind fun _ _ => .ofExcept_bind fun attempt _ =>
    .ofExcept_bind fun json hjson => .now_bind hA fun t =>
    .eval_bind (B := fun _ _ => True) hA ?_ (fun _ hs => hs.2) (fun _ _ _ _ _ => trivial)
      fun _ => .ofExcept_bind fun _ _ => .ret)
  exact ⟨req, attempt, rfl, ⟨rfl, rfl, rfl⟩, rfl, rfl, resultJson_ok hjson, rfl⟩

theorem commitStepError_safe (req : StepRequest) :
    P.SafeFrom cfg n (.commitStepError req)
      (fun s => StoreInv cfg s ∧ P.start (.commitStepError req) s)
      (body cfg n (.commitStepError req)) := by
  have hA := steady_start P cfg n (.commitStepError req)
  refine .bind_ret (.ofExcept_bind fun _ _ => .ofExcept_bind fun attempt _ =>
    .ofExcept_bind fun policy _ => .ofExcept_bind fun json hjson =>
    .now_bind hA fun t =>
    .eval_bind (B := fun _ _ => True) hA ?_ (fun _ hs => hs.2) (fun _ _ _ _ _ => trivial)
      fun _ => .ofExcept_bind fun _ _ => .ret)
  exact ⟨req, attempt, rfl, ⟨rfl, rfl, rfl⟩, rfl, rfl, resultJson_ok hjson, rfl⟩

/-- The processes whose calls need no observation. -/
def plain : Kind → Prop
  | .dispatch | .commitStepSuccess _ | .commitStepError _ | .registerSleep _ | .registerWait _ =>
    False
  | _ => True

theorem Observed.of_plain (hk : plain k) (hc : Calls cfg n k c) :
    P.Observed cfg n k c s := by
  cases c with
  | claimRun => obtain ⟨rfl, -⟩ := hc; exact hk.elim
  | commitStepSuccess | commitStepError => obtain ⟨req, attempt, rfl, -⟩ := hc; exact hk.elim
  | commitStepRecord => obtain ⟨req, -, ⟨rfl, -⟩ | ⟨rfl, -⟩⟩ := hc <;> exact hk.elim
  | _ => trivial

theorem plain_safe (hk : plain k) : P.SafeFrom cfg n k (fun _ => True) (body cfg n k) :=
  .of_makes (body_calls cfg n k) fun _ hc => ⟨hc, fun _ => .of_plain hk hc⟩

/-- Every process is safe from the store in which it is started. -/
theorem Sound.body_safe (h : P.Sound cfg ok) (k : Kind) (hinv : StoreInv cfg s)
    (hfresh : n ∉ s.hist.used) (hstart : P.start k s) :
    (body cfg n k).Safe (Db.call cfg) (P.Rely cfg n k) (P.Guar cfg n k) (fun _ _ => True) s := by
  cases k with
  | dispatch => exact dispatch_safe s ⟨hinv, hfresh⟩
  | commitStepSuccess req => exact commitStepSuccess_safe req s ⟨hinv, hstart⟩
  | commitStepError req => exact commitStepError_safe req s ⟨hinv, hstart⟩
  | registerSleep req => exact h.registerSleep_safe req s hinv
  | registerWait req => exact h.registerWait_safe req s hinv
  | _ =>
    refine plain_safe ?_ s trivial
    trivial

end Policy

variable {ok : ServiceWorld → Label api Kind Env → Prop} {w : ServiceWorld}

theorem ReachableWhen.used_proc (h : ReachableWhen cfg ok w) :
    ∀ t ∈ w.store.hist.used, w.proc t ≠ none := by
  refine System.ReachableWhen.invariant
    (J := fun w : ServiceWorld => ∀ t ∈ w.store.hist.used, w.proc t ≠ none)
    (fun db hdb t ht => ?_) (fun w l w' hw ih _ hs t ht => ?_) h
  · rw [hdb.2] at ht
    exact ht.elim
  · cases hs with
    | spawn | stop => exact World.setProc_proc_ne_none (ih t ht)
    | env e he =>
      refine ih t ?_
      cases e with
      | tick t' => rw [he.2] at ht; exact ht
      | othersReady b => rw [show _ = _ from he] at ht; exact ht
    | @call j k c next x db hj hc =>
      have hcalls := ReachableWhen.calls hw hj
      rcases Db.call_cases hc with rfl | ⟨script, y, inst', rfl, -, rfl⟩
      · exact World.setProc_proc_ne_none (ih t ht)
      · rcases usedAfter_cases ht with ht | ⟨_, _, _, _, _, rfl⟩
        · exact World.setProc_proc_ne_none (ih t ht)
        · obtain ⟨-, rfl, -⟩ := hcalls
          rw [World.setProc_proc_self]
          exact Option.some_ne_none _

/-- **The processes together.** A sound policy is kept by all processes together. -/
def Policy.Sound.relyGuarantee {P : Policy} {ok : ServiceWorld → Label api Kind Env → Prop}
    (h : P.Sound cfg ok) : System.RelyGuarantee (workflows cfg) Db.Initial ok where
  inv := (StoreInv cfg)
  rely := P.Rely cfg
  guar := P.Guar cfg
  compat := P.compat
  inv_init db hdb := by
    have hstate : db.inst.state = none := by rw [hdb.1]; rfl
    refine ⟨?_, fun _ => by rw [hdb.1], ?_, .of_missing hstate⟩
    · rintro t ⟨st, hst, -⟩
      cases hstate.symm.trans hst
    · rw [hdb.1]
      exact .of_empty rfl rfl fun u hu => absurd hu (Option.some_ne_none u).symm
  rely_refl := Policy.Rely.refl P cfg
  rely_trans _ _ _ _ _ h h' := h.trans h'
  guar_inv _ _ _ _ hinv hg := hg.inv hinv
  guar_rely i k j k' s t hne hcomp hinv hg := h.rely_other hne hcomp hinv hg
  env_inv w e t _ hinv he := by
    exact hinv.env he
  env_rely w e t i k hok hinv he := by
    obtain ⟨hframe, hkeep⟩ := h.env w e t k hok he
    have henv : StoreInv cfg w.store → StoreInv cfg t := fun hinv => hinv.env he
    cases e with
    | tick t' =>
      obtain rfl := he.2
      exact ⟨henv, fun hf => hf, fun _ ht => ht, fun _ hl => hl, hframe,
        fun t _ hc => ⟨hc, .of_eq rfl, hkeep t⟩⟩
    | othersReady b =>
      obtain rfl : t = _ := he
      exact ⟨henv, fun hf => hf, fun _ ht => ht, fun _ hl => hl, hframe,
        fun t _ hc => ⟨hc, .of_eq rfl, hkeep t⟩⟩
  spawn_compat := h.spawn_compat
  spawn_safe w i k hw hinv hfree hok :=
    h.body_safe k hinv (fun hused => ReachableWhen.used_proc hw i hused hfree)
      (h.spawn_start w i k hw hinv hfree hok)

/-! ## Without any discipline -/

/-- Without any discipline of the callers there is still what every policy has. -/
theorem Policy.free_sound (cfg : Service) (ok : ServiceWorld → Label api Kind Env → Prop) :
    Policy.free.Sound cfg ok where
  other _ _ _ _ _ _ _ _ _ _ := ⟨trivial, fun _ _ _ => trivial⟩
  own _ _ _ _ _ _ _ _ _ _ _ := ⟨trivial, fun _ _ _ => trivial⟩
  env _ _ _ _ _ _ := ⟨trivial, fun _ => trivial⟩
  spawn_compat _ _ _ _ _ _ _ _ _ _ := ⟨trivial, trivial⟩
  spawn_start _ _ _ _ _ _ _ := trivial

/-- A property of the keys that every effect keeps holds in every reachable state. In
    addition to the arguments of the script, the invariant of the store is known, and that
    a record commit consumes an event that is there. -/
theorem ReachableWhen.effect_invariant {J : Instance → Prop} (hinit : J .absent)
    (heffect : ∀ n k c db x inst', Calls cfg n k c → StoreInv cfg db →
      (∀ g t now o a, c = .commitStepRecord g t now o a → c.effective x →
        CommittedEvent db.inst a) → J db.inst → Effect cfg db.inst c x inst' → J inst')
    (hothers : ∀ inst b, J inst → J { inst with othersReady := b, active := inst.active || b })
    (h : ReachableWhen cfg ok w) : J w.store.inst := by
  refine (Policy.free_sound cfg ok).relyGuarantee.store_invariant (J := fun db => J db.inst)
    (fun db hdb => ?_) (fun n k s s' hinv hJ hg => ?_) (fun w e t _ _ hJ he => ?_) h
  · rw [hdb.1]
    exact hinit
  · rcases hg with rfl | ⟨c, y, inst', hcalls, hobs, heff, rfl⟩
    · exact hJ
    · exact heffect n k c s y inst' hcalls hinv (Policy.committedEvent_of_effect hobs heff) hJ heff
  · cases e with
    | tick t' => rw [he.2]; exact hJ
    | othersReady b => rw [show t = _ from he]; exact hothers _ b hJ

theorem ReachableWhen.storeInv (h : ReachableWhen cfg ok w) : StoreInv cfg w.store :=
  ((Policy.free_sound cfg ok).relyGuarantee.holds h).inv

end Wdl.Workflow
