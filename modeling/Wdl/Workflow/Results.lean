import Wdl.Workflow.Grants

/-!
# The results of steps are written once

A run that was told to run a step, or that has read the record of its sleep or wait, is the
only one that can write this step as long as its claim is current, and once its claim is lost
it can write nothing at all. So no finished record is ever written over.

* `RuntimeDiscipline` is what Runtime keeps to: it commits a step at most once, after it was
  told to run it, and has no two sleeps or waits in flight in one run. It is not enough
  (`finished_step_overwritten`): `OneKindPerStep` adds that no ordinal of a run is used both
  for a `step.do` and for a sleep or a wait.
* `Policy.writeOnce`: what a process that is about to write a step can count on, so that the
  record it writes over is unfinished (`Policy.Guar.unfinished`).
* `ResultsKept`: what the service does to finished steps, and with it what it answers.
-/

namespace Wdl.Workflow

open Option ReachableWhen Api ServiceM

variable {cfg : Service} {i i' : Instance} {n : ℕ} {k : Kind} {s s' : Db} {c : Script} {x : c.Reply}

/-! ## How Runtime makes its calls -/

/-- Runtime was told to run the step. -/
def ToldToRun (w : ServiceWorld) (t o : ℕ) : Prop :=
  ∃ j p req a, w.proc j = some p ∧ p.kind = .claimStep req ∧ req.runToken = t ∧ req.ordinal = o ∧
    p.prog = .ret (.step (.run a))

/-- Runtime sends the result of a step after it was told to run it, and at most once, and a run
    has no two sleeps or waits in flight. -/
def RuntimeDiscipline (w : ServiceWorld) : Label api Kind Env → Prop
  | .spawn _ k =>
    (∀ t o, k.Commits t o → ToldToRun w t o ∧ ∀ j p, w.proc j = some p → ¬ p.kind.Commits t o) ∧
    ∀ t o, k.Registers t o → ∀ j p o', w.proc j = some p → p.Running → ¬ p.kind.Registers t o'
  | _ => True

/-- No ordinal of a run is used both for a `step.do` and for a sleep or a wait. -/
def OneKindPerStep (w : ServiceWorld) : Label api Kind Env → Prop
  | .spawn _ k => ∀ j p t o, w.proc j = some p →
    ¬ (k.Commits t o ∧ p.kind.Registers t o) ∧ ¬ (k.Registers t o ∧ p.kind.Commits t o)
  | _ => True

/-- The calls of Runtime, with no ordinal of a run used for two kinds of steps. -/
def WritesOnce (w : ServiceWorld) (l : Label api Kind Env) : Prop :=
  RuntimeDiscipline w l ∧ OneKindPerStep w l

variable {ok : ServiceWorld → Label api Kind Env → Prop} {w : ServiceWorld}

theorem ToldToRun.granted (h : ReachableWhen cfg ok w) {t o : ℕ} (ht : ToldToRun w t o) :
    Granted t o w.store := by
  obtain ⟨j, p, req, a, hp, hk, rfl, rfl, hprog⟩ := ht
  obtain ⟨db, hdb, hsteps⟩ := System.ReachableWhen.exists_steps h
  have hreach : ∀ {u}, StepsWhen cfg ok ⟨db, fun _ => none⟩ u → ReachableWhen cfg ok u :=
    fun hu => .steps (.init hdb) hu
  -- what the process has returned was right when it returned it, and is so ever since
  have hsafe := System.StepsWhen.safe (S := workflows cfg) (R := ClaimsKept cfg)
    (Q := fun k r s => ∀ req a, k = .claimStep req → r = .ok (.step (.run a)) →
      Granted req.runToken req.ordinal s)
    (.refl cfg) (fun _ _ _ h h' => h.trans h') j
    (fun u l v hu _ hs => step_claimsKept (hreach hu) hs) (fun p hp => by cases hp)
    (fun k u hu => ?_) hsteps hp
  · exact hsafe.outcome (.refl cfg) (by rw [hprog]; rfl) req a hk rfl
  · have hinv := storeInv (hreach hu)
    by_cases hk : ∃ req, k = .claimStep req
    · obtain ⟨req, rfl⟩ := hk
      refine (claimStep_granted (n := j) req u.store hinv).mono fun r s hr req' a hreq hra => ?_
      obtain rfl := Kind.claimStep.inj hreq
      exact hr _ hra a rfl
    · have hany : Returns cfg (ClaimsKept cfg) (fun _ _ => True) (fun _ => True) (body cfg j k) :=
        .of_always (fun _ _ _ _ => trivial) (fun _ _ _ => trivial) _
      exact (hany u.store trivial).mono fun r s _ req a hreq => absurd ⟨req, hreq⟩ hk

/-! ## Writing a step -/

/-- What a process that writes a step can count on. A commit is for a step that is granted and
    that its run has not written; a sleep or a wait that has read an unfinished record finds it
    unfinished while its claim is current. -/
def Policy.writeOnce : Policy where
  keep k t s s' := ∀ o, k.Registers t o → Unfinished (s.inst.steps.lookup o) →
    Unfinished (s'.inst.steps.lookup o)
  frame k s s' := ∀ t o, k.Commits t o → (t, o) ∉ s.hist.written → Granted t o s →
    (t, o) ∉ s'.hist.written ∧ Granted t o s'
  start k s := ∀ t o, k.Commits t o → (t, o) ∉ s.hist.written ∧ Granted t o s
  compat _ k _ k' := ∀ t o, ¬ (k.Writes t o ∧ k'.Writes t o)
  keep_refl _ _ _ _ _ h := h
  keep_trans _ _ _ _ _ h h' o hk hu := h' o hk (h o hk hu)
  frame_refl _ _ _ _ _ hw hg := ⟨hw, hg⟩
  frame_trans k s s' s'' h h' t o hk hw hg := by
    obtain ⟨hw', hg'⟩ := h t o hk hw hg
    exact h' t o hk hw' hg'
  start_frame k s s' h hs t o hk := h t o hk (hs t o hk).1 (hs t o hk).2

/-- What a sleep or a wait commits before the commit that completes it is unfinished. -/
theorem looks_unfinished {y : c.Reply} {inst' : Instance} {t o : ℕ} (hlooks : Policy.looks c)
    (hcalls : Calls cfg n k c) (heff : Effect cfg s.inst c y inst') (hcom : c.Commits t o)
    (hu : Unfinished (s.inst.steps.lookup o)) : Unfinished (inst'.steps.lookup o) := by
  cases heff with
  | idle => exact hu
  | @recorded g t' now o' a st hf =>
    obtain ⟨rfl, rfl⟩ := hcom
    have hst : a.record.val.status = .waiting := by
      obtain ⟨req, -, ⟨-, kind, record, due, rfl, -, -, hsleep⟩ | ⟨-, hw⟩⟩ := hcalls
      · rcases hsleep with ⟨rfl, -⟩ | ⟨d, -, hst, -⟩
        · exact absurd hlooks.2 (by simp [sleepCommit])
        · exact hst
      · rcases hw with ⟨record, type, rfl, -, -, hst⟩ | ⟨event, output, now', type, rfl, -⟩
        · exact hst
        · exact absurd hlooks.2 (by simp [completedWaitCommit])
    intro r hr
    have hins : (writeRecord s.inst st o' a).steps.lookup o' = some a.record :=
      Finmap.lookup_insert _
    rw [hins] at hr
    rw [← some.inj hr]
    exact hst
  | stepSucceeded | stepFailed | stepRetried => exact hlooks.elim
  | _ => exact hcom.elim

theorem Policy.writeOnce_sound (cfg : Service) : Policy.writeOnce.Sound cfg WritesOnce where
  other j k j' k' s s' _ hcomp hinv hg := by
    refine ⟨fun t o hk' hw hgrant => ⟨?_, hgrant.kept (hg.claimsKept hinv)⟩,
      fun t _ hc o hk' hu => ?_⟩
    · rcases hg with rfl | ⟨c, y, inst', hcalls, -, -, rfl⟩
      · exact hw
      · intro hmem
        rcases mem_writtenAfter.1 hmem with hmem | ⟨hcom, -⟩
        · exact hw hmem
        · exact hcomp t o ⟨hcalls.writes hcom, .inl hk'⟩
    · rcases hg with rfl | ⟨c, y, inst', hcalls, -, heff, rfl⟩
      · exact hu
      · rcases heff.lookup_step_or hcalls hc o with hcom | hsame
        · exact (hcomp t o ⟨hcalls.writes hcom.1, .inr hk'⟩).elim
        · exact hsame ▸ hu
  own j k c s y inst' hk hlooks hcalls hinv heff := by
    refine ⟨fun t o hcom => ?_, fun t _ hc o _ hu => ?_⟩
    · obtain ⟨req, hreq⟩ := hk
      exact absurd ⟨req, hreq, rfl, rfl⟩ hcom.not_registers
    · rcases heff.lookup_step_or hcalls hc o with hcom | hsame
      · exact looks_unfinished hlooks hcalls heff hcom.1 hu
      · exact hsame ▸ hu
  env w e s' k _ he := by
    cases e with
    | tick t' => rw [he.2]; exact ⟨fun _ _ _ hw hg => ⟨hw, hg⟩, fun _ _ _ hu => hu⟩
    | othersReady b =>
      rw [show s' = _ from he]
      exact ⟨fun _ _ _ hw hg => ⟨hw, hg⟩, fun _ _ _ hu => hu⟩
  spawn_compat w j k _ _ hok j' p hp hrun := by
    have hne : ∀ t o, ¬ (k.Writes t o ∧ p.kind.Writes t o) := by
      rintro t o ⟨hk | hk, hk' | hk'⟩
      · exact (hok.1.1 t o hk).2 j' p hp hk'
      · exact (hok.2 j' p t o hp).1 ⟨hk, hk'⟩
      · exact (hok.2 j' p t o hp).2 ⟨hk, hk'⟩
      · exact hok.1.2 t o hk j' p o hp hrun hk'
    exact ⟨hne, fun t o h => hne t o h.symm⟩
  spawn_start w j k hw hinv _ hok t o hk := by
    obtain ⟨htold, honce⟩ := hok.1.1 t o hk
    refine ⟨fun hmem => ?_, htold.granted hw⟩
    obtain ⟨j', p, hp, hwrites⟩ := written_proc hw t o hmem
    rcases hwrites with hwrites | hwrites
    · exact honce j' p hp hwrites
    · exact (hok.2 j' p t o hp).1 ⟨hk, hwrites⟩

/-- The record that a commit writes over is unfinished. -/
theorem Policy.Observed.unfinished {t o : ℕ} (hcalls : Calls cfg n k c)
    (hobs : Policy.writeOnce.Observed cfg n k c s) (hcom : c.Commits t o) (hc : Claimed t s) :
    Unfinished (s.inst.steps.lookup o) := by
  have hwrites := hcalls.writes hcom
  cases c with
  | commitStepSuccess | commitStepError =>
    have hk : k.Commits t o := by
      refine hwrites.resolve_right ?_
      obtain ⟨req, attempt, rfl, -⟩ := hcalls
      rintro ⟨req', hk | hk, -⟩ <;> cases hk
    obtain ⟨hw, hgrant⟩ := hobs t o hk
    exact (hgrant.2 hc).resolve_left hw
  | commitStepRecord g t' now o' a =>
    obtain ⟨rfl, rfl⟩ := hcom
    have hk : k.Registers t' o' := by
      refine hwrites.resolve_left ?_
      obtain ⟨req, -, ⟨rfl, -⟩ | ⟨rfl, -⟩⟩ := hcalls <;> rintro ⟨req', hk | hk, -⟩ <;> cases hk
    obtain ⟨⟨s₀, now₀, raw, hinv₀, hread, hraw, hrely⟩, -⟩ := hobs
    obtain ⟨⟨st, hf⟩, rfl⟩ := Policy.readStepRecord_ok hread
    obtain ⟨hst, htok, -⟩ := claimFence_ok hf
    have hused := hinv₀.token_used t' ⟨st, hst, htok⟩
    exact (hrely.claim t' hused hc).2.2 o' hk hraw
  | _ => exact hcom.elim

/-! ## What is stored of a finished step -/

/-- What Runtime is answered about a finished step: that it is done, for a sleep, and else
    with its outcome, which is stored in the record or behind its reference. -/
def StepRecord.answer (i : Instance) (r : StepRecord) : Option StepAnswer :=
  match r.status, r.kind with
  | .waiting, _ => none
  | .completed, .sleep | .completed, .sleepUntil => some (.complete none)
  | .completed, _ =>
    (r.output <|> r.outputRef.bind i.payloads.lookup).map fun p => .complete (some p.val)
  | .failed, _ => (r.error <|> r.errorRef.bind i.payloads.lookup).map fun p => .failed (some p.val)

theorem StepRecord.answer_congr {r : StepRecord}
    (h : ∀ ref, r.outputRef = some ref ∨ r.errorRef = some ref →
      i'.payloads.lookup ref = i.payloads.lookup ref) : r.answer i' = r.answer i := by
  have hout : r.outputRef.bind i'.payloads.lookup = r.outputRef.bind i.payloads.lookup := by
    cases hr : r.outputRef with
    | none => rfl
    | some ref => exact h ref (.inl hr)
  have herr : r.errorRef.bind i'.payloads.lookup = r.errorRef.bind i.payloads.lookup := by
    cases hr : r.errorRef with
    | none => rfl
    | some ref => exact h ref (.inr hr)
  simp only [answer, hout, herr]

/-- The outcomes of the finished steps are stored with them. -/
def RefsOwn (i : Instance) : Prop := ∀ o r, i.steps.lookup o = some r → r.val.OwnRefs o

theorem RefsOwn.effect (hcalls : Calls cfg n k c) (h : RefsOwn i) (heff : Effect cfg i c x i') :
    RefsOwn i' := by
  intro o r hr
  rcases heff.steps_cases hcalls with hdel | ⟨t, o', -, -, hw⟩ | hsame
  · rw [heff.steps_deleted hdel] at hr
    cases hr
  · obtain ⟨r', hsteps, hown⟩ := hw.record
    rw [hsteps, Hash.lookup_insert_ite] at hr
    split at hr
    · rename_i ho
      rw [ho, ← some.inj hr]
      exact hown
    · exact h o r hr
  · rw [hsame.steps] at hr
    exact h o r hr

/-- Finished steps and their outcomes are kept until the steps are deleted. -/
structure ResultsKept (s s' : Db) : Prop where
  epoch : s.hist.epoch ≤ s'.hist.epoch
  results : s'.hist.epoch = s.hist.epoch → ∀ o r, s.inst.steps.lookup o = some r → r.val.Finished →
    s'.inst.steps.lookup o = some r ∧ r.val.answer s'.inst = r.val.answer s.inst

namespace ResultsKept

theorem of_eq (hinst : s'.inst.steps = s.inst.steps) (hpay : s'.inst.payloads = s.inst.payloads)
    (hhist : s'.hist.epoch = s.hist.epoch) : ResultsKept s s' := by
  refine ⟨hhist.ge, fun _ o r hr _ => ⟨by rw [hinst]; exact hr, ?_⟩⟩
  exact StepRecord.answer_congr fun ref _ => by rw [hpay]

theorem refl (s : Db) : ResultsKept s s := of_eq rfl rfl rfl

theorem trans {s s' s'' : Db} (h : ResultsKept s s') (h' : ResultsKept s' s'') :
    ResultsKept s s'' := by
  refine ⟨h.epoch.trans h'.epoch, fun hep o r hr hfin => ?_⟩
  -- the epoch does not change in between
  have hep₁ : s'.hist.epoch = s.hist.epoch := le_antisymm (hep ▸ h'.epoch) h.epoch
  have hep₂ : s''.hist.epoch = s'.hist.epoch := hep.trans hep₁.symm
  obtain ⟨hr', hans'⟩ := h.results hep₁ o r hr hfin
  obtain ⟨hr'', hans''⟩ := h'.results hep₂ o r hr' hfin
  exact ⟨hr'', hans''.trans hans'⟩

end ResultsKept

theorem Policy.Guar.resultsKept (hown : RefsOwn s.inst) (hg : Policy.writeOnce.Guar cfg n k s s') :
    ResultsKept s s' := by
  rcases hg with rfl | ⟨c, y, inst', hcalls, hobs, heff, rfl⟩
  · exact .refl _
  by_cases hdel : c.deletes y
  · have hep : (s.after c y inst').hist.epoch = s.hist.epoch + 1 := if_pos hdel
    exact ⟨by omega, fun heq => by omega⟩
  have hep : (s.after c y inst').hist.epoch = s.hist.epoch := if_neg hdel
  refine ⟨hep.ge, fun _ o r hr hfin => ?_⟩
  rcases heff.steps_cases hcalls with hdel' | ⟨t, o', hcom, -, hw⟩ | hsame
  · exact absurd hdel' hdel
  · obtain ⟨st, hst, htok⟩ := hw.claimed
    obtain ⟨r', hsteps, -⟩ := hw.record
    -- the step that is written is another one
    have hne : o ≠ o' := by
      rintro rfl
      exact hfin (hobs.unfinished hcalls hcom ⟨st, hst, htok⟩ r hr)
    refine ⟨?_, StepRecord.answer_congr fun ref href => hw.payloads ref fun hof => hne ?_⟩
    · rw [Db.after_inst, hsteps, Finmap.lookup_insert_of_ne _ hne]
      exact hr
    · have hof' := hown o r hr hfin ref href
      cases ref <;> first | exact hof.elim | exact hof'.symm.trans hof
  · refine ⟨?_, StepRecord.answer_congr fun ref href => ?_⟩
    · rw [Db.after_inst, hsame.steps]
      exact hr
    · exact hsame.payloads o ref (hown o r hr hfin ref href)

theorem ReachableWhen.refsOwn (h : ReachableWhen cfg ok w) : RefsOwn w.store.inst :=
  inst_invariant (fun o r hr => by cases hr)
    (fun _ _ _ _ _ _ hcalls hJ heff => hJ.effect hcalls heff) (fun _ _ hJ => hJ) h

variable {w' : ServiceWorld} {l : Label api Kind Env}

theorem step_resultsKept (h : ReachableWhen cfg WritesOnce w) (hs : (workflows cfg).Step w l w') :
    ResultsKept w.store w'.store := by
  cases hs with
  | spawn | stop => exact .refl _
  | env e he =>
    cases e with
    | tick t => rw [he.2]; exact .of_eq rfl rfl rfl
    | othersReady b => rw [show _ = _ from he]; exact .of_eq rfl rfl rfl
  | call j hj hc =>
    exact ((Policy.writeOnce_sound cfg).relyGuarantee.call_guar h hj hc).resultsKept
      (refsOwn h)

/-! ## What later calls are answered -/

variable {req : StepRequest}

section Answers

variable {s₀ : Db} {r : JsonText StepRecord} {X : Prop} {α : Type} {post : α → Db → Prop}

/-- The store comes after `s₀`, and as long as the steps have not been deleted since, the
    fact holds. -/
def While (s₀ : Db) (X : Prop) (s : Db) : Prop :=
  ResultsKept s₀ s ∧ (s.hist.epoch = s₀.hist.epoch → X)

theorem While.kept (h : While s₀ X s) (hk : ResultsKept s s') : While s₀ X s' :=
  ⟨h.1.trans hk, fun hep => h.2 (le_antisymm (hep ▸ hk.epoch) h.1.epoch)⟩

/-- The answer of a call is that of the record, unless the steps have been deleted. -/
def AnswersFrom (s₀ : Db) (r : StepRecord) (a : StepAnswer) (s : Db) : Prop :=
  s.hist.epoch = s₀.hist.epoch → r.answer s₀.inst = some a

theorem returns_of_not (hX : ¬ X) (p : ServiceM StepAnswer) :
    Returns cfg ResultsKept (AnswersFrom s₀ r.val) (While s₀ X) p :=
  .of_always (fun _ _ hs hk => hs.kept hk) (fun _ _ hs hep => absurd (hs.2 hep) hX) p

/-- The record that is read is the finished one. -/
theorem returns_readStepRecord {f : Option (JsonText StepRecord) → ServiceM α}
    (hr : s₀.inst.steps.lookup req.ordinal = some r) (hfin : r.val.Finished)
    (hf : ∀ raw, Returns cfg ResultsKept post (While s₀ (raw = some r)) (f raw)) :
    Returns cfg ResultsKept post (ResultsKept s₀) ((readStepRecordForClaim req).bind f) := by
  refine .readStepRecord_bind (fun _ _ hs hk => hs.trans hk) (fun s now raw hs hy => ?_)
    (fun _ _ _ hs hk => hs.kept hk) hf
  obtain ⟨-, rfl⟩ := Policy.readStepRecord_ok hy
  exact ⟨hs, fun hep => (hs.results hep _ r hr hfin).1⟩

/-- The outcome that is read is the one that is stored. -/
theorem returns_storedOutcome {inline : Option Payload} {ref : Option PayloadRef}
    {noRef what : String} {g : ℕ → StepAnswer}
    (hX : X → ∀ s, ResultsKept s₀ s → s.hist.epoch = s₀.hist.epoch →
      r.val.answer s₀.inst = (inline <|> ref.bind s.inst.payloads.lookup).map fun p => g p.val) :
    Returns cfg ResultsKept (fun v => AnswersFrom s₀ r.val (g v)) (While s₀ X)
      (storedOutcome req inline ref noRef what) := by
  have hstable : ∀ {Y : Prop} s t, While s₀ Y s → ResultsKept s t → While s₀ Y t :=
    fun _ _ hs hk => hs.kept hk
  cases inline with
  | some p => exact .ret hstable fun s hs hep => hX (hs.2 hep) s hs.1 hep
  | none =>
    cases ref with
    | none => exact .fail
    | some ref =>
      change Returns cfg ResultsKept _ _ (Prog.bind _ _)
      rw [readStepPayloadForClaim, Prog.bind_eq, Prog.bind_assoc]
      refine .now_bind hstable fun now => ?_
      rw [Prog.bind_eq, Prog.bind_assoc]
      refine .eval_bind (B := fun y s => ∀ p, y = .ok (some p) →
        While s₀ (r.val.answer s₀.inst = some (g p.val)) s) hstable
        (fun s y inst' hs hexec hk p hy => ?_) fun y => ?_
      · obtain ⟨rfl, rfl⟩ := Script.exec_of_reads hexec trivial
        have hread : s.inst.payloads.lookup ref = some p := by
          change (claimFence _ _ _ s.inst).map _ = _ at hy
          cases hf : claimFence req.generation req.runToken now s.inst with
          | error code => rw [hf] at hy; cases hy
          | ok st => rw [hf] at hy; exact Except.ok.inj hy
        have hseen : While s₀ (r.val.answer s₀.inst = some (g p.val)) s := by
          refine ⟨hs.1, fun hep => ?_⟩
          have hans := hX (hs.2 hep) s hs.1 hep
          simpa [hread] using hans
        exact hseen.kept hk
      · cases y with
        | error code => exact .fail
        | ok raw =>
          cases raw with
          | none => exact .fail
          | some p => exact fun s hs => Returns.ret hstable (fun s hs hep => hs.2 hep) s (hs p rfl)

theorem ne_of_waiting {r' : JsonText StepRecord} (hfin : r.val.Finished)
    (hst : r'.val.status = .waiting) : some r' ≠ some r := by
  rintro heq
  rw [some.inj heq] at hst
  exact hfin hst

theorem StepRequest.matches_kind {record : StepRecord} {kind : StepKind}
    (h : req.matches record kind = true) : record.kind = kind := by
  simp only [StepRequest.matches, decide_eq_true_eq] at h
  exact h.2.2.2.2.1

section

variable (hr : s₀.inst.steps.lookup req.ordinal = some r) (hfin : r.val.Finished)

include hr hfin

theorem claimStep_answers :
    Returns cfg ResultsKept (AnswersFrom s₀ r.val) (ResultsKept s₀) (Api.claimStep req) := by
  refine .ofExcept_bind fun _ _ => returns_readStepRecord hr hfin fun raw => ?_
  cases raw with
  | none => exact returns_of_not (by simp) _
  | some r' =>
    refine .ofExcept_bind fun _ hv => ?_
    have hkind := StepRequest.matches_kind (verifyStepRecord_ok hv)
    -- the answer of the record, once it is known which record it is
    have answer : ∀ {s}, ResultsKept s₀ s → s.hist.epoch = s₀.hist.epoch → some r' = some r →
        r.val.answer s₀.inst = r'.val.answer s.inst := by
      intro s hs hep heq
      rw [some.inj heq]
      exact (hs.results hep _ r hr hfin).2.symm
    unfold answerFromRecord
    split
    · rename_i hst
      refine .map (returns_storedOutcome fun heq s hs hep => ?_)
      rw [answer hs hep heq, StepRecord.answer, hst, hkind]
    · rename_i hst
      refine .map (returns_storedOutcome fun heq s hs hep => ?_)
      rw [answer hs hep heq, StepRecord.answer, hst, hkind]
    · rename_i hst
      exact returns_of_not (ne_of_waiting hfin hst) _

theorem registerSleep_answers :
    Returns cfg ResultsKept (AnswersFrom s₀ r.val) (ResultsKept s₀)
      (Api.registerSleep cfg req) := by
  refine .ofExcept_bind fun _ _ => .ofExcept_bind fun kind hk => .ofExcept_bind fun due _ =>
    returns_readStepRecord hr hfin fun raw => ?_
  cases raw with
  | none => exact returns_of_not (by simp) _
  | some r' =>
    refine .now_bind (fun _ _ hs hk => hs.kept hk) fun t => .ofExcept_bind fun _ hv => ?_
    have hkind := StepRequest.matches_kind (verifyStepRecord_ok hv)
    split
    · rename_i hst
      refine .ret (fun _ _ hs hk => hs.kept hk) fun s hs hep => ?_
      rw [← some.inj (hs.2 hep), StepRecord.answer, hst, hkind]
      rcases sleepKind_ok hk with rfl | rfl <;> rfl
    · rename_i hst
      exact returns_of_not (ne_of_waiting hfin hst) _
    · exact .fail

theorem registerWait_answers :
    Returns cfg ResultsKept (AnswersFrom s₀ r.val) (ResultsKept s₀) (Api.registerWait cfg req) := by
  refine .ofExcept_bind fun _ _ => .ofExcept_bind fun type _ => .ofExcept_bind fun due _ =>
    returns_readStepRecord hr hfin fun raw => ?_
  cases raw with
  | none => exact returns_of_not (by simp) _
  | some r' =>
    refine .now_bind (fun _ _ hs hk => hs.kept hk) fun t => .ofExcept_bind fun _ hv => ?_
    have hkind := StepRequest.matches_kind (verifyStepRecord_ok hv)
    split
    · rename_i hst
      refine .map (returns_storedOutcome fun heq s hs hep => ?_)
      rw [← (hs.results hep _ r hr hfin).2, ← some.inj heq, StepRecord.answer, hst, hkind]
    · rename_i hst
      exact returns_of_not (ne_of_waiting hfin hst) _
    · exact .fail

end

end Answers

/-! ## Write once -/

/-- The process asks about the step with this ordinal. -/
def Kind.AsksAbout (k : Kind) (o : ℕ) : Prop :=
  ∃ req, (k = .claimStep req ∨ k = .registerSleep req ∨ k = .registerWait req) ∧ req.ordinal = o

/-- What a process that asks about a finished step returns, when it starts from a store in
    which the step is finished. -/
theorem body_answers {s₀ : Db} {r : JsonText StepRecord} {o : ℕ} (hk : k.AsksAbout o)
    (hr : s₀.inst.steps.lookup o = some r) (hfin : r.val.Finished) :
    Returns cfg ResultsKept (fun b s => ∀ a, b = Result.step a → AnswersFrom s₀ r.val a s)
      (ResultsKept s₀) (body cfg n k) := by
  -- the process returns what the service function returned
  have step : ∀ p : ServiceM StepAnswer,
      Returns cfg ResultsKept (AnswersFrom s₀ r.val) (ResultsKept s₀) p →
      Returns cfg ResultsKept (fun b s => ∀ a, b = Result.step a → AnswersFrom s₀ r.val a s)
        (ResultsKept s₀) (p.bind fun a => .ret (.step a)) := by
    intro p hp
    refine .map fun s hs => (hp s hs).mono fun b t hb a ha a' ha' => ?_
    rw [← Result.step.inj ha']
    exact hb a ha
  obtain ⟨req, rfl | rfl | rfl, rfl⟩ := hk
  · exact step _ (claimStep_answers hr hfin)
  · exact step _ (registerSleep_answers hr hfin)
  · exact step _ (registerWait_answers hr hfin)

/-- The process has not called a script yet, if it has been started at all. -/
def HasNotCalled (cfg : Service) (w : ServiceWorld) (j : ℕ) : Prop :=
  ∀ p, w.proc j = some p → ∃ tr, (body cfg j p.kind).Trace tr p.prog ∧ ∀ e ∈ tr, e.1 = .now

variable {st : State}

/-- An instance that is not published after an effect was not published before it, and its
    steps are those of before. -/
theorem Effect.pendingCreate (hcalls : Calls cfg n k c) (h : Effect cfg i c x i')
    (hst : i'.state = some st) (hp : st.status = .pendingCreate) :
    i'.steps = i.steps ∧ (i.state = none ∨ ∃ u, i.state = some u ∧ u.status = .pendingCreate) := by
  cases h with
  | idle | dueDropped | dueMovedFree | terminalUnready | missingUnready | pruned | staleDropped
  | terminalRequeued | tokenRemoved => exact ⟨rfl, .inr ⟨st, hst, hp⟩⟩
  | eventStored u hu =>
    cases hst
    exact ⟨rfl, .inr ⟨u, hu, hp⟩⟩
  | created hnone => exact ⟨rfl, .inl hnone⟩
  | claimed | requeued | stepRetried | restored | finalized | paused | resumed | terminated
  | restarted | terminalOverflow =>
    cases hst
    cases hp
  | @terminalCommitted g t outcome =>
    cases hst
    cases outcome <;> cases hp
  | released u hu =>
    cases hst
    rcases hcalls.2.2 with rfl | rfl <;> cases hp
  | clearedReady u pre hu hwait | cleared u hu hwait =>
    cases hst
    exact absurd (hwait.symm.trans hp) (by simp)
  | dueMoved u hu hactive =>
    cases hst
    rcases hactive with hq | hq <;> exact absurd (hq.symm.trans hp) (by simp)
  | stepSucceeded u hf | stepFailed u hf =>
    cases hst
    obtain ⟨-, -, hactive⟩ := claimFence_ok hf
    rcases hactive with hq | hq <;> exact absurd (hq.symm.trans hp) (by simp)
  | recorded u hf =>
    cases hst
    rcases hcalls.stateStatus with hq | hq <;> exact absurd (hq.symm.trans hp) (by simp)
  | pendingRemoved | expired => cases hst

/-- An instance that is not published yet has no steps. -/
theorem ReachableWhen.pending_steps (h : ReachableWhen cfg ok w)
    (hst : w.store.inst.state = some st) (hp : st.status = .pendingCreate) :
    w.store.inst.steps = ∅ := by
  refine effect_invariant (J := fun i => ∀ st, i.state = some st →
    st.status = .pendingCreate → i.steps = ∅) (fun st hst => by cases hst)
    (fun n k c db y inst' hcalls hinv _ hJ heff st' hst' hp' => ?_) (fun _ _ hJ => hJ) h st hst hp
  obtain ⟨hsteps, hnone | ⟨u, hu, hpu⟩⟩ := heff.pendingCreate hcalls hst' hp'
  · have hkeys := hinv.missing hnone
    simp only [Instance.keys, Instance.absent, Prod.mk.injEq] at hkeys
    rw [hsteps]
    exact hkeys.2.2.1
  · rw [hsteps]
    exact hJ u hu hpu

/-- The scripts of a restart and of retention. -/
def Script.RestartsOrExpires : Script → Prop
  | .restart .. | .cleanupRetention .. => True
  | _ => False

/-- As long as there are steps, only a restart or retention deletes them. -/
theorem step_epoch (h : ReachableWhen cfg ok w)
    (hs : (workflows cfg).Step w l w') (hsteps : w.store.inst.steps ≠ ∅)
    (hepoch : w'.store.hist.epoch ≠ w.store.hist.epoch) :
    ∃ j script x, l = .call j (.redis script) x ∧ script.RestartsOrExpires := by
  cases hs with
  | spawn | stop => exact absurd rfl hepoch
  | env e he =>
    cases e with
    | tick t => rw [he.2] at hepoch; exact absurd rfl hepoch
    | othersReady b => rw [show _ = _ from he] at hepoch; exact absurd rfl hepoch
  | @call j k c next x db hj hc =>
    rcases Db.call_cases hc with rfl | ⟨script, y, inst', rfl, heff, rfl⟩
    · exact absurd rfl hepoch
    · by_cases hdel : script.deletes y
      · refine ⟨j, script, x, rfl, ?_⟩
        cases heff with
        | restarted | expired => trivial
        | pendingRemoved st hp =>
          -- an instance that is not published has no steps
          obtain ⟨hst, -, hpend, -⟩ := pendingUnder_some hp
          exact absurd (pending_steps h hst hpend) hsteps
        | idle hidle => cases script <;> trivial
        | _ => exact hdel.elim
      · exact absurd (if_neg hdel) hepoch

/-- **The results of steps are written once.** Runtime keeps to its discipline, and no ordinal
    of a run is used both for a `step.do` and for a sleep or a wait. Then from a state in which a
    step is completed or failed, as long as the steps are not deleted: the record and its outcome
    stay as they are; every call about the step that has not called a script yet, and that is
    accepted, is answered with that outcome; and only a restart or retention deletes the steps. -/
theorem step_results_write_once {w w' : ServiceWorld} {o : ℕ} {r : JsonText StepRecord}
    (h : ReachableWhen cfg WritesOnce w) (hr : w.store.inst.steps.lookup o = some r)
    (hfin : r.val.status = .completed ∨ r.val.status = .failed)
    (hrun : StepsWhen cfg WritesOnce w w')
    (hepoch : w'.store.hist.epoch = w.store.hist.epoch) :
    w'.store.inst.steps.lookup o = some r ∧
    r.val.answer w'.store.inst = r.val.answer w.store.inst ∧
    (∀ j p a, HasNotCalled cfg w j → w'.proc j = some p → p.kind.AsksAbout o →
      p.prog = .ret (.step a) → r.val.answer w.store.inst = some a) ∧
    ∀ l w'', (workflows cfg).Step w' l w'' → w''.store.hist.epoch ≠ w'.store.hist.epoch →
      ∃ j script x, l = .call j (.redis script) x ∧ script.RestartsOrExpires := by
  have hfin : r.val.Finished := by rcases hfin with hf | hf <;> simp [StepRecord.Finished, hf]
  have hreach : ∀ {u}, StepsWhen cfg WritesOnce w u → ReachableWhen cfg WritesOnce u :=
    fun hu => .steps h hu
  have hmoves : ∀ u l v, StepsWhen cfg WritesOnce w u → WritesOnce u l →
      (workflows cfg).Step u l v → ResultsKept u.store v.store :=
    fun u l v hu _ hs => step_resultsKept (hreach hu) hs
  have hkept : ∀ {u}, StepsWhen cfg WritesOnce w u → ResultsKept w.store u.store := fun hu =>
    System.StepsWhen.store_rel ResultsKept.refl (fun _ _ _ h h' => h.trans h')
      (fun _ l v hu' => hmoves _ l v hu') hu
  obtain ⟨hr', hans⟩ := (hkept hrun).results hepoch o r hr hfin
  refine ⟨hr', hans, fun j p a hnew hp hask hprog => ?_, fun l w'' hs hne => ?_⟩
  · -- from the state `w` on, what the process returns is the stored outcome
    have hsafe := System.StepsWhen.safe (S := workflows cfg) (R := ResultsKept)
      (Q := fun k b s => k.AsksAbout o → ∀ a, b = .ok (.step a) → AnswersFrom w.store r.val a s)
      ResultsKept.refl (fun _ _ _ h h' => h.trans h') j hmoves ?_ ?_ hrun hp
    · exact hsafe.outcome ResultsKept.refl (by rw [hprog]; rfl) hask a rfl hepoch
    · intro p hp
      obtain ⟨tr, htr, hnow⟩ := hnew p hp
      by_cases hk : p.kind.AsksAbout o
      · have hbody := (show Returns cfg ResultsKept _ _ (body cfg j p.kind) from
          body_answers hk hr hfin) w.store (.refl _) |>.of_trace ResultsKept.refl htr fun e he => ?_
        · exact hbody.mono fun b s hb _ a ha => hb _ ha a rfl
        · -- reading the clock leaves the store as it is
          obtain ⟨c, x⟩ := e
          obtain rfl : c = .now := hnow _ he
          exact ⟨rfl, .refl _⟩
      · have hany : Returns cfg ResultsKept (fun _ _ => True) (fun _ => True) p.prog :=
          .of_always (fun _ _ _ _ => trivial) (fun _ _ _ => trivial) _
        exact (hany w.store trivial).mono fun b s _ hk' => absurd hk' hk
    · intro k u hu
      by_cases hk : k.AsksAbout o
      · exact (body_answers hk hr hfin u.store (hkept hu)).mono fun b s hb _ a ha => hb _ ha a rfl
      · have hany : Returns cfg ResultsKept (fun _ _ => True) (fun _ => True) (body cfg j k) :=
          .of_always (fun _ _ _ _ => trivial) (fun _ _ _ => trivial) _
        exact (hany u.store trivial).mono fun b s _ hk' => absurd hk' hk
  · refine step_epoch (hreach hrun) hs (fun hnone => ?_) hne
    rw [hnone] at hr'
    cases hr'

/-! ## The ordinals of a run -/

/-- A request of the run with token `1` about the step with ordinal `3`. -/
def stepRequest (type : Option StepKind) (due : Option ℤ) : StepRequest where
  generation := 1
  createdAtMs := 100
  runToken := 1
  ordinal := 3
  stepName := "step"
  nameCount := 1
  dependencies := []
  attempt := none
  nonRetryable := false
  config := ⟨0, 20, none, type, none⟩
  output := examplePayload
  error := .null
  dueAtMs := due

/-- An instance that was created and claimed, and whose run was told to run the step. -/
noncomputable def stepClaimedWorld : ServiceWorld :=
  ((ServiceWorld.initial.alone .standard 0 (.create ⟨.null, 1000, 1000⟩) 10 100 7 .malformed).alone
    .standard 1 .dispatch 3 200 7 .malformed).alone
    .standard 2 (.claimStep (stepRequest none none)) 10 300 7 .malformed

/-- Then a sleep with the same ordinal is registered, and completed at once. -/
noncomputable def sleptWorld : ServiceWorld :=
  stepClaimedWorld.alone .standard 3
    (.registerSleep (stepRequest (some .sleep) (some 250))) 10 400 7 .malformed

/-- Then the result of the step is sent. -/
noncomputable def sleptCommittedWorld : ServiceWorld :=
  sleptWorld.alone .standard 4 (.commitStepSuccess (stepRequest none none)) 10 500 7 .malformed

variable {j : ℕ} {p : Process api Kind WorkflowError Result}

theorem stepClaimedWorld_proc (hp : stepClaimedWorld.proc j = some p) :
    p.kind = .claimStep (stepRequest none none) ∨ p.kind = .dispatch ∨
      p.kind = .create ⟨.null, 1000, 1000⟩ := by
  rcases World.setProc_cases hp with ⟨-, rfl⟩ | ⟨-, hp⟩
  · exact .inl rfl
  rcases World.setProc_cases hp with ⟨-, rfl⟩ | ⟨-, hp⟩
  · exact .inr (.inl rfl)
  rcases World.setProc_cases hp with ⟨-, rfl⟩ | ⟨-, hp⟩
  · exact .inr (.inr rfl)
  · cases hp

theorem stepClaimedWorld_not_writes (hp : stepClaimedWorld.proc j = some p) (t o : ℕ) :
    ¬ p.kind.Writes t o := by
  rcases stepClaimedWorld_proc hp with hk | hk | hk <;> rw [hk] <;>
    rintro (⟨req, hk' | hk', -⟩ | ⟨req, hk' | hk', -⟩) <;> cases hk'

/-- A process that writes no step may be started at any time. -/
theorem writesOnce_spawn (hk : ∀ t o, ¬ k.Writes t o) :
    WritesOnce w (.spawn j k) :=
  ⟨⟨fun t o hc => absurd (.inl hc) (hk t o), fun t o hr => absurd (.inr hr) (hk t o)⟩,
    fun _ _ t o _ => ⟨fun h => hk t o (.inl h.1), fun h => hk t o (.inr h.1)⟩⟩

theorem stepClaimedWorld_reachable : ReachableWhen .standard WritesOnce stepClaimedWorld := by
  have hcalls : ∀ w j c x, WritesOnce w (.call j c x) := fun _ _ _ _ => ⟨trivial, trivial⟩
  have h₀ := initial .standard WritesOnce
  have h₁ := alone hcalls h₀ (i := 0) rfl (.create ⟨.null, 1000, 1000⟩)
    (writesOnce_spawn fun t o => by rintro (⟨req, h | h, -⟩ | ⟨req, h | h, -⟩) <;> cases h)
    10 100 7 .malformed
  have h₂ := alone hcalls h₁ (i := 1) rfl .dispatch
    (writesOnce_spawn fun t o => by rintro (⟨req, h | h, -⟩ | ⟨req, h | h, -⟩) <;> cases h)
    3 200 7 .malformed
  exact alone hcalls h₂ (i := 2) rfl (.claimStep (stepRequest none none))
    (writesOnce_spawn fun t o => by rintro (⟨req, h | h, -⟩ | ⟨req, h | h, -⟩) <;> cases h)
    10 300 7 .malformed

/-- The run was told to run the step with ordinal `3`. -/
theorem toldToRun_of_proc (h : w.proc 2 = stepClaimedWorld.proc 2) :
    ToldToRun w 1 3 :=
  ⟨2, _, stepRequest none none, none, h.trans rfl, rfl, rfl, rfl, rfl⟩

theorem commits_stepRequest {t o : ℕ}
    (h : (Kind.commitStepSuccess (stepRequest none none)).Commits t o) : t = 1 ∧ o = 3 := by
  obtain ⟨req, hk | hk, rfl, rfl⟩ := h
  · obtain rfl := Kind.commitStepSuccess.inj hk
    exact ⟨rfl, rfl⟩
  · cases hk

/-- **An ordinal that is used twice.** Runtime keeps to its discipline, but has one ordinal of
    a run claimed for a `step.do` and registered as a sleep: the result of the `step.do` is
    written over the completed sleep. -/
theorem finished_step_overwritten :
    ReachableWhen .standard RuntimeDiscipline sleptWorld ∧
    StepsWhen .standard RuntimeDiscipline sleptWorld sleptCommittedWorld ∧
    sleptCommittedWorld.store.hist.epoch = sleptWorld.store.hist.epoch ∧
    (sleptWorld.store.inst.steps.lookup 3).map (fun r => (r.val.status, r.val.kind)) =
      some (.completed, .sleep) ∧
    (sleptCommittedWorld.store.inst.steps.lookup 3).map (fun r => (r.val.status, r.val.kind)) =
      some (.completed, .doStep) := by
  have hcalls : ∀ w j c x, RuntimeDiscipline w (.call j c x) := fun _ _ _ _ => trivial
  have hclaimed : ReachableWhen .standard RuntimeDiscipline stepClaimedWorld :=
    System.ReachableWhen.mono (fun _ _ hok => hok.1) stepClaimedWorld_reachable
  have hslept : ReachableWhen .standard RuntimeDiscipline sleptWorld := by
    refine alone hcalls hclaimed (i := 3) rfl _ ⟨fun t o hc => ?_, fun t o _ => ?_⟩
      10 400 7 .malformed
    · obtain ⟨req, h | h, -⟩ := hc <;> cases h
    · intro j p o' hp _ hreg
      exact stepClaimedWorld_not_writes hp t o' (.inr hreg)
  refine ⟨hslept, ?_, if_neg fun h => h, by rfl, by rfl⟩
  refine .alone hcalls .refl (i := 4) rfl _ ⟨fun t o hc => ?_, fun t o hr => ?_⟩ 10 500 7
    .malformed
  · obtain ⟨rfl, rfl⟩ := commits_stepRequest hc
    refine ⟨toldToRun_of_proc rfl, fun j p hp hcom => ?_⟩
    rcases World.setProc_cases hp with ⟨-, rfl⟩ | ⟨-, hp⟩
    · obtain ⟨req, h | h, -⟩ := hcom <;> cases h
    · exact stepClaimedWorld_not_writes hp 1 3 (.inl hcom)
  · obtain ⟨req, h | h, -⟩ := hr <;> cases h

/-- The result of the claimed step is sent, and nothing else is done with its ordinal. -/
noncomputable def stepCommittedWorld : ServiceWorld :=
  stepClaimedWorld.alone .standard 3
    (.commitStepSuccess (stepRequest none none)) 10 400 7 .malformed

/-- A later claim of the step. -/
noncomputable def stepReplayedWorld : ServiceWorld :=
  stepCommittedWorld.alone .standard 4 (.claimStep (stepRequest none none)) 10 500 7 .malformed

/-- The later claim is answered with the output that was stored. -/
theorem step_results_write_once_replayed :
    ∃ r, stepReplayedWorld.store.inst.steps.lookup 3 = some r ∧
      r.val.answer stepCommittedWorld.store.inst = some (.complete (some 4)) := by
  have hcalls : ∀ w j c x, WritesOnce w (.call j c x) := fun _ _ _ _ => ⟨trivial, trivial⟩
  have hw : ReachableWhen .standard WritesOnce stepCommittedWorld := by
    refine alone hcalls stepClaimedWorld_reachable (i := 3) rfl _
      ⟨⟨fun t o hc => ?_, fun t o hr => ?_⟩, fun j p t o hp => ⟨fun h => ?_, fun h => ?_⟩⟩ 10 400 7
      .malformed
    · obtain ⟨rfl, rfl⟩ := commits_stepRequest hc
      exact ⟨toldToRun_of_proc rfl,
        fun j p hp hcom => stepClaimedWorld_not_writes hp 1 3 (.inl hcom)⟩
    · obtain ⟨req, h | h, -⟩ := hr <;> cases h
    · exact stepClaimedWorld_not_writes hp t o (.inr h.2)
    · exact stepClaimedWorld_not_writes hp t o (.inl h.2)
  have hrun : StepsWhen .standard WritesOnce stepCommittedWorld stepReplayedWorld :=
    StepsWhen.alone hcalls .refl (i := 4) rfl _
      (writesOnce_spawn fun t o => by rintro (⟨req, h | h, -⟩ | ⟨req, h | h, -⟩) <;> cases h)
      10 500 7 .malformed
  have hstored : (stepCommittedWorld.store.inst.steps.lookup 3).map (fun r => r.val.status) =
      some .completed := by rfl
  obtain ⟨r, hr, hst⟩ := map_eq_some_iff.1 hstored
  obtain ⟨hr', -, hans, -⟩ := step_results_write_once hw hr (.inl hst) hrun
    (if_neg fun h => h)
  refine ⟨r, hr', hans 4 _ _ (fun p hp => ?_) rfl ⟨_, .inl rfl, rfl⟩ rfl⟩
  cases hp

end Wdl.Workflow
