import Wdl.Workflow.Calls

/-!
# The retention set

An instance that ends enters the retention set with the time at which its retention
passes, and it leaves the set when it is restarted or deleted. The sweep reads the
set, then the state, and then runs a script, and the instance may have been
restarted, ended again or created anew in between.

* `RetentionAgrees`: the token is in the retention set exactly when the instance is
  terminal, with the time of its state as score.
* A sweep deletes only an incarnation that it has read, and only when that incarnation
  is terminal and its retention has passed.
-/

namespace Wdl.Workflow

/-- The retention set and the state of the instance agree. -/
structure RetentionAgrees (i : Instance) : Prop where
  score_of_terminal : ∀ s, i.state = some s → s.status.terminal = true →
    ∃ e, s.retentionExpiresAtMs = some e ∧ i.retention = some e
  terminal_of_score : ∀ e, i.retention = some e →
    ∃ s, i.state = some s ∧ s.status.terminal = true

namespace RetentionAgrees

variable {i i' : Instance} {s s' : State}

theorem retention_none (h : RetentionAgrees i) (hs : i.state = some s)
    (hst : s.status.terminal = false) : i.retention = none := by
  by_contra hne
  obtain ⟨e, he⟩ := Option.ne_none_iff_exists'.1 hne
  obtain ⟨s', hs', hst'⟩ := h.terminal_of_score e he
  cases hs.symm.trans hs'
  rw [hst] at hst'
  exact Bool.false_ne_true hst'

theorem retention_none_of_missing (h : RetentionAgrees i) (hs : i.state = none) :
    i.retention = none := by
  by_contra hne
  obtain ⟨e, he⟩ := Option.ne_none_iff_exists'.1 hne
  obtain ⟨s', hs', -⟩ := h.terminal_of_score e he
  cases hs.symm.trans hs'

theorem of_eq (h : RetentionAgrees i) (hs : i'.state = i.state) (hr : i'.retention = i.retention) :
    RetentionAgrees i' := by
  refine ⟨fun s hs' hst => ?_, fun e he => ?_⟩
  · rw [hs] at hs'
    rw [hr]
    exact h.score_of_terminal s hs' hst
  · rw [hr] at he
    rw [hs]
    exact h.terminal_of_score e he

/-- An instance that has not ended, or none at all, agrees without a token. -/
theorem of_none (hs : ∀ s, i'.state = some s → s.status.terminal = false)
    (hr : i'.retention = none) : RetentionAgrees i' := by
  refine ⟨fun s hs' hst => ?_, fun e he => ?_⟩
  · cases (hs s hs').symm.trans hst
  · cases hr.symm.trans he

/-- A step from one active state to another that leaves the token alone. -/
theorem active (h : RetentionAgrees i) (hs : i.state = some s) (hst : s.status.terminal = false)
    (hs' : i'.state = some s') (hst' : s'.status.terminal = false)
    (hr : i'.retention = i.retention) : RetentionAgrees i' := by
  refine of_none (fun s'' hs'' => ?_) (hr.trans (h.retention_none hs hst))
  cases hs'.symm.trans hs''
  exact hst'

/-- An instance that ends enters the retention set. -/
theorem ended {e : ℕ} (hs : i'.state = some s') (hst : s'.status.terminal = true)
    (he : s'.retentionExpiresAtMs = some e) (hr : i'.retention = some e) : RetentionAgrees i' := by
  refine ⟨fun s'' hs'' _ => ⟨e, ?_, hr⟩, fun _ _ => ⟨s', hs, hst⟩⟩
  rw [hs] at hs''
  rwa [← Option.some.inj hs'']

end RetentionAgrees

variable {cfg : Service} {n : ℕ}

theorem RetentionAgrees.effect {k : Kind} {c : Script} {i i' : Instance}
    {x : c.Reply} (hc : Calls cfg n k c) (h : RetentionAgrees i) (heff : Effect cfg i c x i') :
    RetentionAgrees i' := by
  cases heff with
  | idle _ => exact h
  | claimed s hs hst _ _ _ =>
    have hst' : s.status.terminal = false := by
      rw [hst]
      rcases hc.2.2.2 with rfl | rfl <;> rfl
    exact h.active hs hst' rfl rfl rfl
  | released s hs _ _ hst =>
    refine h.active hs (by rw [hst]; rfl) rfl ?_ rfl
    rcases hc.2.2 with rfl | rfl <;> rfl
  | clearedReady s _ hs hst _ _ _ _ =>
    have hst' : s.status.terminal = false := by rw [hst]; rfl
    exact h.active hs hst' rfl hst' rfl
  | cleared s hs hst _ _ _ =>
    have hst' : s.status.terminal = false := by rw [hst]; rfl
    exact h.active hs hst' rfl hst' rfl
  | requeued s hs hst _ => exact h.active hs (by rw [hst]; rfl) rfl rfl rfl
  | dueDropped | dueMovedFree => exact h.of_eq rfl rfl
  | dueMoved s hs hst =>
    have hst' : s.status.terminal = false := by rcases hst with hst | hst <;> rw [hst] <;> rfl
    exact h.active hs hst' rfl hst' rfl
  | terminalUnready | missingUnready | pruned => exact h.of_eq rfl rfl
  | stepSucceeded s hs _ | stepFailed s hs _ =>
    obtain ⟨hs, hst⟩ := claimFence_active hs
    exact h.active hs hst rfl hst rfl
  | stepRetried s hs _ | restored s hs _ =>
    obtain ⟨hs, hst⟩ := claimFence_active hs
    exact h.active hs hst rfl rfl rfl
  | @recorded g t now o a s hs _ =>
    obtain ⟨hs, hst⟩ := claimFence_active hs
    have ha : a.stateStatus.terminal = false := by
      rcases hc.stateStatus with ha | ha <;> rw [ha] <;> rfl
    exact h.active hs hst rfl ha rfl
  | eventStored s hs hst _ _ _ => exact h.active hs hst rfl hst rfl
  | staleDropped _ _ => exact h.of_eq rfl rfl
  | created hs =>
    refine of_none (fun s hs' => ?_) (h.retention_none_of_missing hs)
    cases hs'
    rfl
  | finalized s hs =>
    obtain ⟨hs, -, hst, -⟩ := pendingUnder_some hs
    exact h.active hs (by rw [hst]; rfl) rfl rfl rfl
  | pendingRemoved s hs =>
    obtain ⟨hs, -, hst, -⟩ := pendingUnder_some hs
    refine of_none nofun (h.retention_none hs ?_)
    rw [hst]
    rfl
  | paused s hs hst => exact h.active (incarnation_some hs).1 hst rfl rfl rfl
  | resumed s hs hst =>
    exact h.active (incarnation_some hs).1 (by rw [hst]; rfl) rfl rfl rfl
  | terminated s hs hst => exact ended rfl rfl rfl rfl
  | restarted s hs =>
    refine of_none (fun s' hs' => ?_) rfl
    cases hs'
    rfl
  | terminalRequeued _ _ _ => exact h.of_eq rfl rfl
  | terminalOverflow s _ _ _ _ => exact ended rfl rfl rfl rfl
  | @terminalCommitted g t outcome result now e e' s _ _ _ _ =>
    refine ended rfl ?_ rfl rfl
    cases outcome <;> rfl
  | tokenRemoved hr hseen =>
    -- a sweep only hands over a state that it did not see to be terminal
    refine of_none (fun s hs => ?_) rfl
    refine hc s.status s.generation s.createdAtMs ?_
    rw [← hseen, observed, show i.state = some s from hs]
    rfl
  | expired s e hs _ _ _ => exact of_none nofun rfl

variable {ok : ServiceWorld → Label api Kind Env → Prop}

theorem ReachableWhen.retentionAgrees {w : ServiceWorld}
    (h : ReachableWhen cfg ok w) : RetentionAgrees w.store.inst :=
  h.inst_invariant (RetentionAgrees.of_none nofun rfl)
    (fun _ _ _ _ _ _ hc hJ heff => hJ.effect hc heff) (fun _ _ hJ => hJ.of_eq rfl rfl)

/-! ## The sweep -/

/-- The sweep has read a state of this incarnation, at this time of its clock. -/
def SweepRead (tr : List ((c : Call) × api.Ans c)) (now generation createdAtMs : ℕ) : Prop :=
  ∃ seen : State, (⟨.now, now⟩ : (c : Call) × api.Ans c) ∈ tr ∧
    (⟨.redis .readState, some (some seen)⟩ : (c : Call) × api.Ans c) ∈ tr ∧
    seen.generation = generation ∧ seen.createdAtMs = createdAtMs

/-- The calls of a sweep, after the calls it made before and their answers. -/
def SweepCalls (tr : List ((c : Call) × api.Ans c)) : Call → Prop
  | .now | .redis .readState | .redis (.scanRetention _) | .redis (.removeRetentionToken ..) => True
  | .redis (.cleanupRetention g c now _) => SweepRead tr now g c
  | _ => False

theorem emitsAfter_eval_bind {P : List ((c : Call) × api.Ans c) → Call → Prop}
    {tr : List ((c : Call) × api.Ans c)} {β : Type} {c : Script} {f : c.Reply → ServiceM β}
    (hc : P tr (.redis c))
    (hf : ∀ x, (f x).EmitsAfter P (tr ++ [(⟨.redis c, some x⟩ : (c : Call) × api.Ans c)])) :
    ((ServiceM.eval c).bind f).EmitsAfter P tr := by
  refine ⟨hc, fun x => ?_⟩
  cases x with
  | none => trivial
  | some x => exact hf x

theorem retentionTokenState_cleanup {state : Option State} {now : ℕ} {s : State}
    (h : Api.retentionTokenState state now = .cleanup s) : state = some s := by
  unfold Api.retentionTokenState at h
  split at h
  · cases h
  · split at h
    · cases h
    · split at h
      · cases h
      · rw [Api.RetentionTokenState.cleanup.inj h]

theorem sweep_calls (cfg : Service) (n : ℕ) : (body cfg n .retention).EmitsAfter SweepCalls [] := by
  refine .bind ?_ fun _ _ => trivial
  refine ⟨trivial, fun now => emitsAfter_eval_bind trivial fun score => ?_⟩
  cases score with
  | none => trivial
  | some score =>
    refine emitsAfter_eval_bind trivial fun state => ?_
    split
    · exact emitsAfter_eval_bind trivial fun _ => trivial
    · trivial
    · rename_i s hplan
      refine emitsAfter_eval_bind ⟨s, ?_, ?_, rfl, rfl⟩ fun _ => trivial
      · exact List.mem_append_left _ (List.mem_append_left _ List.mem_cons_self)
      · rw [retentionTokenState_cleanup hplan]
        exact List.mem_append_right _ List.mem_cons_self

/-- What a step of a sweep does to the keys. -/
theorem sweep_step {w w' : ServiceWorld} (h : ReachableWhen cfg ok w)
    {p : Process api Kind WorkflowError Result} {c : Call} {x : api.Ans c} (hp : w.proc n = some p)
    (hk : p.kind = .retention) (hs : (workflows cfg).Step w (.call n c x) w') :
    w'.store.inst = w.store.inst ∨
    ((∀ s, w.store.inst.state = some s → s.status.terminal = false) ∧
      w'.store.inst = { w.store.inst with retention := none }) ∨
    ∃ s e now tr, w.store.inst.state = some s ∧ s.status.terminal = true ∧
      s.retentionExpiresAtMs = some e ∧ e ≤ now ∧ (body cfg n .retention).Trace tr p.prog ∧
      SweepRead tr now s.generation s.createdAtMs ∧
      w'.store.inst.keys = Instance.absent.keys := by
  cases hs with
  | @call _ k _ next _ db hi hcall =>
    cases hi.symm.trans hp
    obtain rfl : k = .retention := hk
    obtain ⟨tr, htr⟩ := System.ReachableWhen.trace h hi
    have hemit := ((sweep_calls cfg n).trace htr).1
    have hcalls := h.calls hi
    rcases Db.call_cases hcall with rfl | ⟨script, y, inst', rfl, heff, rfl⟩
    · exact .inl rfl
    · cases heff with
      | idle _ => exact .inl rfl
      | tokenRemoved hr hseen =>
        refine .inr (.inl ⟨fun s hs => ?_, rfl⟩)
        refine hcalls s.status s.generation s.createdAtMs ?_
        rw [← hseen, observed, hs]
        rfl
      | @expired g cr now v s e hs hst he hle =>
        obtain ⟨hs', rfl, rfl⟩ := incarnation_some hs
        exact .inr (.inr ⟨s, e, now, tr, hs', hst, he, hle, htr, hemit, rfl⟩)
      | _ => exact hemit.elim

/-- **The retention set and the terminal states agree.** The token is in the retention
    set, with the time of the state as score, exactly when the instance has ended. A step
    of a sweep that changes the keys of the instance deletes them, and then the instance
    is terminal, its retention has passed, and it is of the incarnation that the sweep has
    read. A step of a sweep that takes the token of a terminal instance deletes its keys. -/
theorem retention_token_iff_terminal {cfg : Service} {w : ServiceWorld} (h : Reachable cfg w) :
    ((∃ s, w.store.inst.state = some s ∧ s.status.terminal = true) ↔
      ∃ e, w.store.inst.retention = some e) ∧
    (∀ s, w.store.inst.state = some s → s.status.terminal = true →
      w.store.inst.retention = s.retentionExpiresAtMs) ∧
    ∀ n p c x w', w.proc n = some p → p.kind = .retention →
      (workflows cfg).Step w (.call n c x) w' →
      (w'.store.inst.keys ≠ w.store.inst.keys →
        w'.store.inst.keys = Instance.absent.keys ∧
        ∃ s e now tr, w.store.inst.state = some s ∧ s.status.terminal = true ∧
          s.retentionExpiresAtMs = some e ∧ e ≤ now ∧
          (body cfg n .retention).Trace tr p.prog ∧
          SweepRead tr now s.generation s.createdAtMs) ∧
      (∀ s, w.store.inst.state = some s → s.status.terminal = true →
        w'.store.inst.retention ≠ w.store.inst.retention →
        w'.store.inst.keys = Instance.absent.keys) := by
  have hagree := ReachableWhen.retentionAgrees h
  refine ⟨⟨?_, ?_⟩, ?_, ?_⟩
  · rintro ⟨s, hs, hst⟩
    obtain ⟨e, -, he⟩ := hagree.score_of_terminal s hs hst
    exact ⟨e, he⟩
  · rintro ⟨e, he⟩
    exact hagree.terminal_of_score e he
  · intro s hs hst
    obtain ⟨e, he, hr⟩ := hagree.score_of_terminal s hs hst
    rw [he, hr]
  · intro n p c x w' hp hk hstep
    rcases sweep_step h hp hk hstep with hsame | ⟨hact, htok⟩ |
      ⟨s, e, now, tr, hs, hst, he, hle, htr, hread, hdel⟩
    · exact ⟨fun hne => absurd (by rw [hsame]) hne, fun s _ _ hne => absurd (by rw [hsame]) hne⟩
    · refine ⟨fun hne => absurd (by rw [htok]; rfl) hne, fun s hs hst _ => ?_⟩
      cases (hact s hs).symm.trans hst
    · exact ⟨fun _ => ⟨hdel, s, e, now, tr, hs, hst, he, hle, htr, hread⟩, fun _ _ _ _ => hdel⟩

/-- An instance that was created and terminated, and a sweep that is about to delete it. -/
noncomputable def sweptWorld : ServiceWorld :=
  ((ServiceWorld.initial.alone .standard 0 (.create ⟨.null, 1000, 1000⟩) 10 100 7 .malformed).alone
    .standard 1 .terminate 3 200 7 .malformed).alone .standard 2 .retention 3 5000 7 .malformed

theorem sweptWorld_reachable : Reachable .standard sweptWorld :=
  (((Reachable.initial .standard).alone rfl _ _ _ _ _).alone rfl _ _ _ _ _).alone rfl _ _ _ _ _

theorem retention_token_iff_terminal_swept :
    sweptWorld.store.inst.retention = some 1200 ∧
    (∃ s, sweptWorld.store.inst.state = some s ∧ s.status.terminal = true) ∧
    (∃ p, sweptWorld.proc 2 = some p ∧ p.kind = .retention ∧ p.Running) := by
  obtain ⟨hiff, -⟩ := retention_token_iff_terminal sweptWorld_reachable
  exact ⟨rfl, hiff.2 ⟨1200, rfl⟩, _, rfl, rfl, rfl, rfl⟩

end Wdl.Workflow
