import Wdl.Workflow.Processes

/-!
# Who may write a step

A commit does not look at the record that it writes over. What protects a step is that only
the run whose claim is current can write it, and that a claim that is lost stays lost.

* `Effect.steps_cases` says what a script can do to the steps, and `Kind.Writes` which
  processes write which step of which run.
* `Returns` is for reasoning about what a process returns in a run of which it is known how
  it moves the store.
* `Granted`: what a run that was told to run a step can count on (`claimStep_granted`).
-/

namespace Wdl.Workflow

open Api ServiceM

variable {cfg : Service} {i i' : Instance} {n : ℕ} {k : Kind} {s s' : Db} {c : Script} {x : c.Reply}

/-! ## What is written -/

/-- The script commits the step with this ordinal, for the run with this token. -/
def Script.Commits : Script → ℕ → ℕ → Prop
  | .commitStepSuccess _ token _ ordinal .., t, o
  | .commitStepError _ token _ ordinal .., t, o
  | .commitStepRecord _ token _ ordinal _, t, o => token = t ∧ ordinal = o
  | _, _, _ => False

variable {t : ℕ}

theorem mem_writtenAfter {before : Set (ℕ × ℕ)} {o : ℕ} :
    (t, o) ∈ writtenAfter before c x ↔ (t, o) ∈ before ∨ (c.Commits t o ∧ c.effective x) := by
  cases c with
  | commitStepSuccess | commitStepError | commitStepRecord =>
    refine or_congr_right ⟨fun h => ?_, fun h => ⟨h.2, ?_⟩⟩
    · obtain ⟨rfl, rfl⟩ := Prod.mk.inj h.2
      exact ⟨⟨rfl, rfl⟩, h.1⟩
    · obtain ⟨⟨rfl, rfl⟩, -⟩ := h
      rfl
  | _ => exact ⟨.inl, fun h => h.resolve_right fun hc => hc.1⟩

/-- The process sends the result of a `step.do`. -/
def Kind.Commits (k : Kind) (t o : ℕ) : Prop :=
  ∃ req, (k = .commitStepSuccess req ∨ k = .commitStepError req) ∧
    req.runToken = t ∧ req.ordinal = o

/-- The process registers a sleep or a wait. -/
def Kind.Registers (k : Kind) (t o : ℕ) : Prop :=
  ∃ req, (k = .registerSleep req ∨ k = .registerWait req) ∧ req.runToken = t ∧ req.ordinal = o

/-- The process writes the step with this ordinal, for the run with this token. -/
def Kind.Writes (k : Kind) (t o : ℕ) : Prop := k.Commits t o ∨ k.Registers t o

theorem Kind.Commits.not_registers {o t' o' : ℕ} (h : k.Commits t o) : ¬ k.Registers t' o' := by
  obtain ⟨req, rfl | rfl, -⟩ := h <;> rintro ⟨req', hk | hk, -⟩ <;> cases hk

/-- Only the processes that write a step call the scripts that commit it. -/
theorem Calls.writes {o : ℕ} (h : Calls cfg n k c) (hc : c.Commits t o) : k.Writes t o := by
  cases c with
  | commitStepSuccess =>
    obtain ⟨rfl, rfl⟩ := hc
    obtain ⟨req, attempt, rfl, ⟨-, rfl, rfl⟩, -⟩ := h
    exact .inl ⟨req, .inl rfl, rfl, rfl⟩
  | commitStepError =>
    obtain ⟨rfl, rfl⟩ := hc
    obtain ⟨req, attempt, rfl, ⟨-, rfl, rfl⟩, -⟩ := h
    exact .inl ⟨req, .inr rfl, rfl, rfl⟩
  | commitStepRecord =>
    obtain ⟨rfl, rfl⟩ := hc
    obtain ⟨req, ⟨-, rfl, rfl⟩, ⟨rfl, -⟩ | ⟨rfl, -⟩⟩ := h
    · exact .inr ⟨req, .inl rfl, rfl, rfl⟩
    · exact .inr ⟨req, .inr rfl, rfl, rfl⟩
  | _ => exact hc.elim

/-! ## What the effects do to steps -/

/-- The step is completed or failed. -/
def StepRecord.Finished (r : StepRecord) : Prop := r.status ≠ .waiting

/-- The outcome of a finished record is stored with its own step. -/
def StepRecord.OwnRefs (r : StepRecord) (o : ℕ) : Prop :=
  r.Finished → ∀ ref, r.outputRef = some ref ∨ r.errorRef = some ref → ref.OfStep o

/-- The run with this token, whose claim is current, writes the step with this ordinal. -/
structure StepWritten (i i' : Instance) (t o : ℕ) : Prop where
  claimed : ∃ s, i.state = some s ∧ s.runToken = some t
  claimed' : ∃ s, i'.state = some s ∧ s.runToken = some t
  record : ∃ r, i'.steps = i.steps.insert o r ∧ r.val.OwnRefs o
  payloads : ∀ ref, ¬ ref.OfStep o → i'.payloads.lookup ref = i.payloads.lookup ref

/-- Neither the records of the steps nor their payloads are touched. -/
structure StepsUnchanged (i i' : Instance) : Prop where
  steps : i'.steps = i.steps
  payloads : ∀ o ref, ref.OfStep o → i'.payloads.lookup ref = i.payloads.lookup ref

theorem StepsUnchanged.of_eq (hs : i'.steps = i.steps) (hp : i'.payloads = i.payloads) :
    StepsUnchanged i i' :=
  ⟨hs, fun _ _ _ => by rw [hp]⟩

/-- A payload that is not of a step is written beside those of the steps. -/
theorem StepsUnchanged.insert {ref : PayloadRef} {p : Payload} (hs : i'.steps = i.steps)
    (hp : i'.payloads = i.payloads.insert ref p) (href : ∀ o, ¬ ref.OfStep o) :
    StepsUnchanged i i' := by
  refine ⟨hs, fun o ref' href' => ?_⟩
  rw [hp]
  exact Finmap.lookup_insert_of_ne _ fun heq => href o (heq ▸ href')

theorem successRecord_ownRefs (req : StepRequest) (attempt now : ℕ) :
    (successRecord req attempt now).OwnRefs req.ordinal := by
  rintro - ref (href | href)
  · exact Accounted.successRecord_outputRef ref href
  · cases href

theorem errorRecord_ownRefs (req : StepRequest) (attempt now : ℕ) (due : Option ℕ) :
    (errorRecord req attempt now due).OwnRefs req.ordinal := by
  rintro - ref (href | href)
  · cases href
  · exact Accounted.errorRecord_errorRef ref href

/-- A completed sleep has no outcome, that of a completed wait is stored with its step, and
    the others are not finished. -/
theorem recordCommit_ownRefs {g now o : ℕ} {a : StepRecordCommit}
    (h : Calls cfg n k (.commitStepRecord g t now o a)) : a.record.val.OwnRefs o := by
  have href := (Accounted.recordRef h).1
  obtain ⟨req, ⟨-, -, rfl⟩, ⟨-, kind, record, due, rfl, -, -, hsleep⟩ | ⟨-, hw⟩⟩ := h
  · rcases hsleep with ⟨-, d, now', rfl⟩ | ⟨d, -, hst, -⟩
    · rintro - ref (href' | href') <;> cases href'
    · exact fun hfin => absurd hst hfin
  · rcases hw with ⟨record, type, rfl, -, -, hst⟩ | ⟨event, output, now', type, rfl, -⟩
    · exact fun hfin => absurd hst hfin
    · rintro - ref (href' | href')
      · exact href ref href'
      · cases href'

/-- What an effect does to the steps: they are all deleted, or one is written by the run
    whose claim is current, or they are left alone. -/
theorem Effect.steps_cases (hcalls : Calls cfg n k c) (h : Effect cfg i c x i') :
    c.deletes x ∨ (∃ t o, c.Commits t o ∧ c.effective x ∧ StepWritten i i' t o) ∨
      StepsUnchanged i i' := by
  have written : ∀ {g t now o st st' ref json} {r : JsonText StepRecord},
      claimFence g t now i = .ok st → i'.state = some st' → st'.runToken = st.runToken →
      i'.steps = i.steps.insert o r → r.val.OwnRefs o → i'.payloads = writePayload i ref json →
      (∀ ref', ref = some ref' → ref'.OfStep o) → StepWritten i i' t o := by
    intro g t now o st st' ref json r hf hst' htok hsteps hown hpay href
    obtain ⟨hst, ht, -⟩ := claimFence_ok hf
    refine ⟨⟨st, hst, ht⟩, ⟨st', hst', htok.trans ht⟩, ⟨r, hsteps, hown⟩, fun ref' href' => ?_⟩
    rw [hpay]
    exact lookup_writePayload href href'
  cases h with
  | pendingRemoved | expired | restarted => exact .inl rfl
  | @stepSucceeded g t now o ref json record summary st hf =>
    obtain ⟨req, attempt, -, ⟨-, -, rfl⟩, rfl, rfl, -, -⟩ := hcalls
    exact .inr (.inl
      ⟨t, _, ⟨rfl, rfl⟩, rfl, written hf rfl rfl rfl (successRecord_ownRefs req attempt now) rfl
      Accounted.successRecord_outputRef⟩)
  | @stepFailed g t now o ref json record summary st hf =>
    obtain ⟨req, attempt, -, ⟨-, -, rfl⟩, rfl, rfl, -, -⟩ := hcalls
    exact .inr (.inl ⟨t, _, ⟨rfl, rfl⟩, rfl, written hf rfl rfl rfl
      (errorRecord_ownRefs req attempt now none) rfl Accounted.errorRecord_errorRef⟩)
  | @stepRetried g t now o ref json record summary due st hf =>
    obtain ⟨req, attempt, -, ⟨-, -, rfl⟩, rfl, rfl, -, -⟩ := hcalls
    exact .inr (.inl ⟨t, _, ⟨rfl, rfl⟩, rfl, written hf rfl rfl rfl
      (errorRecord_ownRefs req attempt now (some due)) rfl Accounted.errorRecord_errorRef⟩)
  | @recorded g t now o a st hf =>
    exact .inr (.inl
      ⟨t, o, ⟨rfl, rfl⟩, rfl, written hf rfl rfl rfl (recordCommit_ownRefs hcalls) rfl
      (Accounted.recordRef hcalls).1⟩)
  | eventStored | created => exact .inr (.inr (.insert rfl rfl fun _ h => h))
  | @terminalCommitted g t outcome =>
    refine .inr (.inr (.insert rfl rfl fun o => ?_))
    cases outcome <;> exact fun h => h
  | _ => exact .inr (.inr (.of_eq rfl rfl))

/-- Nothing is left of the steps once they are deleted, and nobody holds a claim. -/
theorem Effect.steps_deleted (h : Effect cfg i c x i') (hdel : c.deletes x) : i'.steps = ∅ := by
  cases h with
  | pendingRemoved | expired | restarted => rfl
  | idle hidle => cases c <;> first | exact hdel.elim | exact absurd hdel hidle
  | _ => exact hdel.elim

variable {y : c.Reply} {inst' : Instance}

theorem not_claimed_of_deleted (h : Effect cfg s.inst c y inst')
    (hdel : c.deletes y) (t : ℕ) : ¬ Claimed t (s.after c y inst') := by
  rintro ⟨st, hst, htok⟩
  cases ((h.deleted hdel).2 st hst).symm.trans htok

variable {ok : ServiceWorld → Label api Kind Env → Prop}

theorem ReachableWhen.written_proc {w : ServiceWorld} (h : ReachableWhen cfg ok w) :
    ∀ t o, (t, o) ∈ w.store.hist.written → ∃ j p, w.proc j = some p ∧ p.kind.Writes t o := by
  refine System.ReachableWhen.invariant (J := fun w : ServiceWorld => ∀ t o,
    (t, o) ∈ w.store.hist.written → ∃ j p, w.proc j = some p ∧ p.kind.Writes t o)
    (fun db hdb t o ho => ?_) (fun w l w' hw ih _ hs t o ho => ?_) h
  · rw [hdb.2] at ho
    exact ho.elim
  · -- a process that is there stays there, with its kind
    have keep : ∀ {u : ServiceWorld} {m q}, (∃ j p, u.proc j = some p ∧ p.kind.Writes t o) →
        (∀ p, u.proc m = some p → q.kind = p.kind) →
        ∃ j p, (u.setProc m q).proc j = some p ∧ p.kind.Writes t o := by
      rintro u m q ⟨j, p, hp, hw⟩ hq
      by_cases hj : j = m
      · subst hj
        exact ⟨j, q, World.setProc_proc_self .., hq p hp ▸ hw⟩
      · exact ⟨j, p, (World.setProc_proc_ne u q hj).trans hp, hw⟩
    cases hs with
    | spawn m k hm => exact keep (ih t o ho) fun p hp => absurd (hm.symm.trans hp) (by simp)
    | @stop m p hm =>
      refine keep (ih t o ho) fun q hq => ?_
      rw [Option.some.inj (hm.symm.trans hq)]
    | env e he =>
      refine ih t o ?_
      cases e with
      | tick t' => rw [he.2] at ho; exact ho
      | othersReady b => rw [show _ = _ from he] at ho; exact ho
    | @call m k c next y db hm hc =>
      have hkind : ∀ p, w.proc m = some p → k = p.kind := fun p hp => by
        rw [Option.some.inj (hp.symm.trans hm)]
      rcases Db.call_cases hc with rfl | ⟨script, reply, inst', rfl, -, rfl⟩
      · exact keep (ih t o ho) hkind
      · rcases mem_writtenAfter.1 ho with ho | ⟨hcom, -⟩
        · exact keep (ih t o ho) hkind
        · exact ⟨m, _, World.setProc_proc_self .., Calls.writes (ReachableWhen.calls hw hm) hcom⟩

/-! ## What a process returns -/

/-- In a run that moves the store within `R`, what the program returns from a store in which
    `A` holds satisfies `post`. -/
abbrev Returns (cfg : Service) (R : Db → Db → Prop) {α : Type} (post : α → Db → Prop)
    (A : Db → Prop) (p : ServiceM α) : Prop :=
  Prog.SafeFrom (Prog.Within (Db.call cfg) R) R (fun _ _ => True)
    (fun r s => ∀ a, r = .ok a → post a s) A p

namespace Returns

variable {R : Db → Db → Prop} {α β : Type} {post : α → Db → Prop} {A : Db → Prop}

theorem fail {e : WorkflowError} : Returns cfg R post A (.fail e) := by
  intro s _ t _ a ha
  cases ha

theorem ret {a : α} (hA : ∀ s t, A s → R s t → A t) (h : ∀ s, A s → post a s) :
    Returns cfg R post A (.ret a) := by
  intro s hs t ht b hb
  cases hb
  exact h t (hA s t hs ht)

theorem map {g : β → α} {p : ServiceM β} (h : Returns cfg R (fun b => post (g b)) A p) :
    Returns cfg R post A (p.bind fun b => .ret (g b)) := by
  intro s hs
  refine ((h s hs).mono fun r t hr => ?_).map
  cases r with
  | error e => exact nofun
  | ok b =>
    rintro a ha
    cases ha
    exact hr b rfl

/-- Nothing needs to be known of the program where every outcome is as it should be. -/
theorem of_always (hA : ∀ s t, A s → R s t → A t) (h : ∀ s a, A s → post a s) (p : ServiceM α) :
    Returns cfg R post A p := by
  induction p with
  | ret a => exact ret hA fun s hs => h s a hs
  | fail e => exact fail
  | call c next ih =>
    exact Prog.SafeFrom.of_call hA (fun s x t hs hc => ⟨trivial, hA s t hs hc.2⟩) ih

theorem now_bind {f : ℕ → ServiceM α} (hA : ∀ s t, A s → R s t → A t)
    (h : ∀ t, Returns cfg R post A (f t)) : Returns cfg R post A (now.bind f) :=
  Prog.SafeFrom.of_call hA (fun s _ t hs hc => ⟨trivial, hA s t hs hc.2⟩) fun x => h x

theorem ofExcept_bind {e : Except WorkflowError β} {f : β → ServiceM α}
    (h : ∀ a, e = .ok a → Returns cfg R post A (f a)) :
    Returns cfg R post A ((ofExcept e).bind f) := by
  cases e with
  | error e => exact fail
  | ok a => exact h a rfl

/-- A script takes the assertion before it to one that may depend on the reply. -/
theorem eval_bind {c : Script} {f : c.Reply → ServiceM α} {B : c.Reply → Db → Prop}
    (hA : ∀ s t, A s → R s t → A t)
    (hB : ∀ s y inst', A s → c.exec cfg s.inst y inst' → R s (s.after c y inst') →
      B y (s.after c y inst'))
    (h : ∀ y, Returns cfg R post (B y) (f y)) : Returns cfg R post A ((eval c).bind f) := by
  refine Prog.SafeFrom.of_call (B := fun x s => ∀ y, x = some y → B y s) hA
    (fun s x t hs hcall => ⟨trivial, fun y hy => ?_⟩) fun x => ?_
  · obtain ⟨⟨y', inst', hexec, rfl, hx⟩ | ⟨rfl, -⟩, hmove⟩ := hcall
    · rcases hx with rfl | rfl
      · cases hy
        exact hB s _ inst' hs hexec hmove
      · cases hy
    · cases hy
  · cases x with
    | none => exact fail
    | some y => exact fun s hs => h y s (hs y rfl)

/-- The record of the step is read, of which `B` is known then. -/
theorem readStepRecord_bind {req : StepRequest} {f : Option (JsonText StepRecord) → ServiceM α}
    {B : Option (JsonText StepRecord) → Db → Prop} (hA : ∀ s t, A s → R s t → A t)
    (hB : ∀ s now raw, A s →
      readStepRecord req.generation req.runToken now req.ordinal s.inst = .ok raw → B raw s)
    (hstable : ∀ raw s t, B raw s → R s t → B raw t)
    (hf : ∀ raw, Returns cfg R post (B raw) (f raw)) :
    Returns cfg R post A ((readStepRecordForClaim req).bind f) := by
  rw [readStepRecordForClaim, Prog.bind_eq, Prog.bind_assoc]
  refine now_bind hA fun now => ?_
  rw [Prog.bind_eq, Prog.bind_assoc]
  refine eval_bind (B := fun y s => ∀ raw, y = .ok raw → B raw s) hA
    (fun s y inst' hs hexec hmove raw hy => ?_) fun y => ?_
  · obtain ⟨hread, rfl⟩ := Script.exec_of_reads hexec trivial
    exact hstable raw _ _ (hB s now raw hs (hread.symm.trans hy)) hmove
  · cases y with
    | error code => exact fail
    | ok raw => exact fun s hs => hf raw s (hs raw rfl)

end Returns

/-! ## Being told to run a step -/

/-- What every step of the service keeps: tokens are not used twice, and while a claim is
    current only its own run writes steps. -/
structure ClaimsKept (cfg : Service) (s s' : Db) : Prop where
  inv : StoreInv cfg s → StoreInv cfg s'
  used : ∀ t ∈ s.hist.used, t ∈ s'.hist.used
  written : ∀ p ∈ s.hist.written, p ∈ s'.hist.written
  steps : ∀ t ∈ s.hist.used, Claimed t s' → Claimed t s ∧
    ∀ o, (t, o) ∈ s'.hist.written ∨ s'.inst.steps.lookup o = s.inst.steps.lookup o

namespace ClaimsKept

theorem refl (cfg : Service) (s : Db) : ClaimsKept cfg s s :=
  ⟨id, fun _ h => h, fun _ h => h, fun _ _ hc => ⟨hc, fun _ => .inr rfl⟩⟩

theorem trans {s s' s'' : Db} (h : ClaimsKept cfg s s') (h' : ClaimsKept cfg s' s'') :
    ClaimsKept cfg s s'' := by
  refine ⟨fun hi => h'.inv (h.inv hi), fun t ht => h'.used t (h.used t ht),
    fun p hp => h'.written p (h.written p hp), fun t ht hc => ?_⟩
  obtain ⟨hc', hsteps'⟩ := h'.steps t (h.used t ht) hc
  obtain ⟨hc'', hsteps⟩ := h.steps t ht hc'
  refine ⟨hc'', fun o => ?_⟩
  rcases hsteps' o with hw | heq
  · exact .inl hw
  · rcases hsteps o with hw | heq'
    · exact .inl (h'.written _ hw)
    · exact .inr (heq.trans heq')

end ClaimsKept

/-- While the claim of a run is current, a step of it stays as it is unless this run writes it. -/
theorem Effect.lookup_step_or (hcalls : Calls cfg n k c)
    (heff : Effect cfg s.inst c y inst') (hc : Claimed t (s.after c y inst')) (o : ℕ) :
    c.Commits t o ∧ c.effective y ∨ inst'.steps.lookup o = s.inst.steps.lookup o := by
  rcases heff.steps_cases hcalls with hdel | ⟨t', o', hcom, hy, hw⟩ | hsame
  · exact absurd hc (not_claimed_of_deleted heff hdel t)
  · obtain ⟨st, hst, htok⟩ := hc
    obtain ⟨st', hst', htok'⟩ := hw.claimed'
    cases hst.symm.trans hst'
    cases htok.symm.trans htok'
    obtain ⟨r, hsteps, -⟩ := hw.record
    by_cases ho : o = o'
    · exact .inl ⟨ho ▸ hcom, hy⟩
    · exact .inr (by rw [hsteps, Finmap.lookup_insert_of_ne _ ho])
  · exact .inr (by rw [hsame.steps])

theorem Policy.Guar.claimsKept {P : Policy} (hg : P.Guar cfg n k s s') (hinv : StoreInv cfg s) :
    ClaimsKept cfg s s' := by
  refine ⟨fun _ => hg.inv hinv, hg.used, ?_, fun t ht hc => ⟨hg.claimed ht hc, ?_⟩⟩
  · rcases hg with rfl | ⟨c, y, inst', -, -, -, rfl⟩
    · exact fun _ hp => hp
    · exact fun p hp => mem_writtenAfter.2 (.inl hp)
  · rcases hg with rfl | ⟨c, y, inst', hcalls, -, heff, rfl⟩
    · exact fun _ => .inr rfl
    · intro o
      rcases heff.lookup_step_or hcalls hc o with hcom | hsame
      · exact .inl (mem_writtenAfter.2 (.inr hcom))
      · exact .inr hsame

theorem step_claimsKept {w w' : ServiceWorld}
    {l : Label api Kind Env} (h : ReachableWhen cfg ok w) (hs : (workflows cfg).Step w l w') :
    ClaimsKept cfg w.store w'.store := by
  have hinv := ReachableWhen.storeInv h
  cases hs with
  | spawn | stop => exact .refl cfg _
  | env e he =>
    refine ⟨fun hi => hi.env he, ?_, ?_, ?_⟩
    all_goals
      cases e with
      | tick t =>
        rw [he.2]; first | exact fun _ h => h | exact fun _ _ hc => ⟨hc, fun _ => .inr rfl⟩
      | othersReady b =>
        rw [show _ = _ from he]
        first | exact fun _ h => h | exact fun _ _ hc => ⟨hc, fun _ => .inr rfl⟩
  | call j hj hc =>
    exact ((Policy.free_sound cfg ok).relyGuarantee.call_guar h hj hc).claimsKept hinv

/-- The run was told to run the step: as long as its claim is current and it has not written
    the step itself, the step is unfinished. -/
def Granted (t o : ℕ) (s : Db) : Prop :=
  t ∈ s.hist.used ∧
    (Claimed t s → (t, o) ∈ s.hist.written ∨ Unfinished (s.inst.steps.lookup o))

theorem Granted.kept {o : ℕ} (h : Granted t o s) (hk : ClaimsKept cfg s s') : Granted t o s' := by
  refine ⟨hk.used t h.1, fun hc => ?_⟩
  obtain ⟨hc', hsteps⟩ := hk.steps t h.1 hc
  rcases hsteps o with hw | heq
  · exact .inl hw
  · rw [heq]
    exact (h.2 hc').imp_left (hk.written _)

/-- The run has read this record of the step, with its claim current. -/
def HasRead (cfg : Service) (t o : ℕ) (raw : Option (JsonText StepRecord)) (s : Db) : Prop :=
  StoreInv cfg s ∧ t ∈ s.hist.used ∧
    (Claimed t s → (t, o) ∈ s.hist.written ∨ s.inst.steps.lookup o = raw)

variable {raw : Option (JsonText StepRecord)}

theorem HasRead.kept {o : ℕ} (h : HasRead cfg t o raw s)
    (hk : ClaimsKept cfg s s') : HasRead cfg t o raw s' := by
  refine ⟨hk.inv h.1, hk.used t h.2.1, fun hc => ?_⟩
  obtain ⟨hc', hsteps⟩ := hk.steps t h.2.1 hc
  rcases hsteps o with hw | heq
  · exact .inl hw
  · rw [heq]
    exact (h.2.2 hc').imp_left (hk.written _)

theorem HasRead.granted {o : ℕ} (h : HasRead cfg t o raw s)
    (hraw : Unfinished raw) : Granted t o s :=
  ⟨h.2.1, fun hc => (h.2.2 hc).imp_right fun heq => by rw [heq]; exact hraw⟩

/-- When `claimStep` answers that the step is to be run, it is granted. -/
theorem claimStep_granted (req : StepRequest) :
    Returns cfg (ClaimsKept cfg) (fun r s => ∀ a, r = .step (.run a) →
      Granted req.runToken req.ordinal s) (StoreInv cfg) (body cfg n (.claimStep req)) := by
  have hinv : ∀ s t, StoreInv cfg s → ClaimsKept cfg s t → StoreInv cfg t :=
    fun _ _ hs hk => hk.inv hs
  have hread : ∀ {raw} s t, HasRead cfg req.runToken req.ordinal raw s → ClaimsKept cfg s t →
      HasRead cfg req.runToken req.ordinal raw t := fun _ _ hs hk => hs.kept hk
  -- every other answer says nothing
  have other : ∀ {α : Type} {raw} (p : ServiceM α) (g : α → StepAnswer), (∀ v a, g v ≠ .run a) →
      Returns cfg (ClaimsKept cfg) (fun b s => ∀ a, Result.step b = .step (.run a) →
        Granted req.runToken req.ordinal s) (HasRead cfg req.runToken req.ordinal raw)
        (p.bind fun v => .ret (g v)) := by
    intro α raw p g hg
    refine .map (.of_always hread (fun s v _ a ha => ?_) p)
    exact absurd (Result.step.inj ha) (hg v a)
  refine .map (.ofExcept_bind fun _ _ => ?_)
  refine .readStepRecord_bind (B := HasRead cfg req.runToken req.ordinal) hinv
    (fun s now raw hs hy => ?_) (fun _ => hread) fun raw => ?_
  · obtain ⟨⟨st, hf⟩, rfl⟩ := Policy.readStepRecord_ok hy
    obtain ⟨hst, htok, -⟩ := claimFence_ok hf
    exact ⟨hs, hs.token_used _ ⟨st, hst, htok⟩, fun _ => .inr rfl⟩
  · cases raw with
    | none => exact .ret hread fun s hs a _ => hs.granted fun r hr => by cases hr
    | some r =>
      refine .ofExcept_bind fun _ _ => ?_
      unfold answerFromRecord
      split
      · exact other _ _ fun v a => by simp
      · exact other _ _ fun v a => by simp
      · rename_i hst
        split
        · exact .fail
        · refine .now_bind hread fun t => ?_
          split
          · exact other _ (fun _ => .waiting none) fun v a => by simp
          · refine .ret hread fun s hs a _ => hs.granted fun r' hr' => ?_
            rw [← Option.some.inj hr']
            exact hst

end Wdl.Workflow
