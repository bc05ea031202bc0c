import Wdl.Base.Recording
import Wdl.Workflow.Calls

/-!
# The lives of an instance

An instance id may be used again once its instance has been deleted: an instance lives
several times. Each life begins with a reservation, and ends when the reservation is
removed or the retention of the published instance has passed.

* `Life` is what there is to say of an instance at a moment, seen from the outside, and
  `Instance.life` reads it off the state. `Life.versions` is where the instance has to
  stand in the index by version.
* `Effect.life_eq` says that only the scripts of the lifecycle touch the life and the
  indexes.
* `Mark` are the events of these lives, and `tracked` is the service that records them.
-/

namespace Wdl.Workflow

open Instance Option

/-! ## Lives -/

/-- An instance, as far as its creation and its indexes are concerned. -/
inductive Life
  | absent
  /-- Reserved by the create with this token. -/
  | pending (token : Option ℕ) (createdAt version : ℕ)
  /-- Visible, and still in use by its version unless it was terminated. -/
  | visible (createdAt generation version : ℕ) (terminated : Bool)
  deriving DecidableEq

namespace Life

/-- When the life began. -/
def createdAt : Life → Option ℕ
  | absent => none
  | pending _ c _ => some c
  | visible c _ _ _ => some c

/-- The instance is visible. -/
def isVisible : Life → Bool
  | visible .. => true
  | _ => false

/-- The versions that the instance keeps in use. -/
def versions : Life → Finset ℕ
  | absent => ∅
  | pending _ _ v => {v}
  | visible _ _ v terminated => if terminated then ∅ else {v}

end Life

/-- The life that a state is of. -/
def State.life (s : State) : Life :=
  if s.status = .pendingCreate then .pending s.pendingCreateToken s.createdAtMs s.frozenVersion
  else .visible s.createdAtMs s.generation s.frozenVersion (s.status = .terminated)

/-- The life that the instance is in. -/
def Instance.life (i : Instance) : Life := i.state.elim .absent State.life

variable {i i' : Instance} {s s' : State}

theorem State.life_of_pending (h : s.status = .pendingCreate) :
    s.life = .pending s.pendingCreateToken s.createdAtMs s.frozenVersion := if_pos h

theorem State.life_of_visible (h : s.status ≠ .pendingCreate) :
    s.life = .visible s.createdAtMs s.generation s.frozenVersion (s.status = .terminated) :=
  if_neg h

theorem State.life_ne_absent (s : State) : s.life ≠ .absent := by
  unfold State.life
  split <;> exact nofun

@[simp] theorem State.life_createdAt (s : State) : s.life.createdAt = some s.createdAtMs := by
  unfold State.life
  split <;> rfl

theorem State.life_isVisible (s : State) : s.life.isVisible = true ↔ s.status ≠ .pendingCreate := by
  unfold State.life
  split <;> simp [Life.isVisible, *]

theorem Instance.life_of_state (h : i.state = some s) : i.life = s.life := by
  rw [life, h]
  rfl

theorem Instance.life_of_missing (h : i.state = none) : i.life = .absent := by
  rw [life, h]
  rfl

theorem Instance.life_eq_absent : i.life = .absent ↔ i.state = none := by
  refine ⟨fun h => ?_, life_of_missing⟩
  cases hs : i.state with
  | none => rfl
  | some s => exact absurd ((life_of_state hs).symm.trans h) s.life_ne_absent

/-- The instance keeps the version of its state in use until it is terminated. -/
theorem Instance.mem_versions {v : ℕ} : v ∈ i.life.versions ↔
    ∃ s, i.state = some s ∧ s.status ≠ .terminated ∧ s.frozenVersion = v := by
  cases hs : i.state with
  | none => simp [life_of_missing hs, Life.versions]
  | some s =>
    rw [life_of_state hs]
    by_cases hst : s.status = .pendingCreate
    · rw [State.life_of_pending hst, Life.versions, Finset.mem_singleton, eq_comm]
      simp [hst]
    · rw [State.life_of_visible hst, Life.versions]
      by_cases hterm : s.status = .terminated
      · simp [hterm]
      · simp [hterm, @eq_comm _ v]

theorem Instance.isVisible_iff : i.life.isVisible = true ↔
    ∃ s, i.state = some s ∧ s.status ≠ .pendingCreate := by
  cases hs : i.state with
  | none => simp [life_of_missing hs, Life.isVisible]
  | some s => simp [life_of_state hs, State.life_isVisible]

/-- A change of the state that keeps what the life is read from. -/
theorem Instance.life_congr (hs : i.state = some s) (hs' : i'.state = some s')
    (hcreated : s'.createdAtMs = s.createdAtMs) (hgen : s'.generation = s.generation)
    (hversion : s'.frozenVersion = s.frozenVersion) (hst : s.status ≠ .pendingCreate)
    (hst' : s'.status ≠ .pendingCreate)
    (hterm : s'.status = .terminated ↔ s.status = .terminated) : i'.life = i.life := by
  rw [life_of_state hs, life_of_state hs', State.life_of_visible hst,
    State.life_of_visible hst', hcreated, hgen, hversion, decide_eq_decide.2 hterm]

theorem Instance.life_of_same (hs : i.state = some s) (hs' : i'.state = some s')
    (h : s'.life = s.life) : i'.life = i.life := by
  rw [life_of_state hs, life_of_state hs', h]

/-! ## What the scripts do to a life -/

/-- The instance stands in the indexes as it did. -/
structure SameIndexes (i i' : Instance) : Prop where
  byWorker : i'.byWorker = i.byWorker
  byVersion : i'.byVersion = i.byVersion
  byWorkflow : i'.byWorkflow = i.byWorkflow

/-- The scripts that begin, change or end a life. -/
def Script.Lives : Script → Prop
  | .createInstance _ | .finalizeCreateInstance _ _ | .cleanupPendingCreate _ _ | .pause _ _ _
  | .resume _ _ _ | .terminate _ _ _ _ _ | .restart _ _ _ _ _ _ _ _
  | .cleanupRetention _ _ _ _ => True
  | _ => False

variable {cfg : Service} {n : ℕ} {k : Kind} {c : Script} {x : c.Reply}

theorem Status.plain_of {st : Status} (h : st = .queued ∨ st = .running ∨ st = .waiting) :
    st ≠ .pendingCreate ∧ st ≠ .terminated := by
  rcases h with rfl | rfl | rfl <;> exact ⟨by decide, by decide⟩

/-- The other scripts leave the life and the indexes alone. -/
theorem Effect.life_eq (h : Effect cfg i c x i') (hc : Calls cfg n k c) (hl : ¬ c.Lives) :
    i'.life = i.life ∧ SameIndexes i i' := by
  -- a run moves an instance from one of these statuses to another
  have moved : ∀ {s s' : State}, i.state = some s → i'.state = some s' →
      s'.createdAtMs = s.createdAtMs → s'.generation = s.generation →
      s'.frozenVersion = s.frozenVersion →
      (s.status = .queued ∨ s.status = .running ∨ s.status = .waiting) →
      (s'.status ≠ .pendingCreate ∧ s'.status ≠ .terminated) → i'.life = i.life := by
    intro s s' hs hs' hcreated hgen hversion hst hst'
    obtain ⟨hpend, hterm⟩ := Status.plain_of hst
    exact life_congr hs hs' hcreated hgen hversion hpend hst'.1
      ⟨fun h => absurd h hst'.2, fun h => absurd h hterm⟩
  cases h with
  | idle | dueDropped | dueMovedFree | terminalUnready | missingUnready | pruned | staleDropped
  | terminalRequeued | tokenRemoved => exact ⟨rfl, rfl, rfl, rfl⟩
  | claimed s hs hst =>
    refine ⟨moved hs rfl rfl rfl rfl ?_ ⟨by simp, by simp⟩, rfl, rfl, rfl⟩
    rw [hst]
    rcases hc.2.2.2 with h | h <;> simp [h]
  | released s hs _ _ hst =>
    refine ⟨moved hs rfl rfl rfl rfl (.inr (.inl hst)) (Status.plain_of ?_), rfl, rfl, rfl⟩
    rcases hc.2.2 with h | h <;> simp [h]
  | clearedReady s _ hs | cleared s hs | dueMoved s hs | eventStored s hs =>
    exact ⟨life_of_same hs rfl rfl, rfl, rfl, rfl⟩
  | requeued s hs hst =>
    exact ⟨moved hs rfl rfl rfl rfl (.inr (.inl hst)) ⟨by simp, by simp⟩,
      rfl, rfl, rfl⟩
  | stepSucceeded s hs | stepFailed s hs =>
    exact ⟨life_of_same (claimFence_ok hs).1 rfl rfl, rfl, rfl, rfl⟩
  | stepRetried s hs =>
    obtain ⟨hs, -, hst⟩ := claimFence_ok hs
    exact ⟨moved hs rfl rfl rfl rfl (.inr hst) ⟨by simp, by simp⟩, rfl, rfl, rfl⟩
  | restored s hs =>
    obtain ⟨hs, -, hst⟩ := claimFence_ok hs
    exact ⟨moved hs rfl rfl rfl rfl (.inr hst) ⟨by simp, by simp⟩, rfl, rfl, rfl⟩
  | recorded s hs =>
    obtain ⟨hs, -, hst⟩ := claimFence_ok hs
    exact ⟨moved hs rfl rfl rfl rfl (.inr hst) (Status.plain_of (.inr hc.stateStatus)),
      rfl, rfl, rfl⟩
  | terminalOverflow s hs _ hst =>
    refine ⟨moved hs rfl rfl rfl rfl (.inr hst) ⟨?_, ?_⟩, rfl, rfl, rfl⟩ <;> simp
  | @terminalCommitted _ _ outcome _ _ _ _ s hs _ hst =>
    refine ⟨moved hs rfl rfl rfl rfl (.inr hst) ⟨?_, ?_⟩, rfl, rfl, rfl⟩ <;>
      cases outcome <;> simp [RunOutcome.status]
  | created | finalized | pendingRemoved | paused | resumed | terminated | restarted | expired =>
    exact absurd trivial hl

/-! ## Ready and due tokens -/

/-- An instance that is not to be run, since it is not there, reserved or has ended, is in
    neither the ready nor the due set. -/
def Quiet (i : Instance) : Prop :=
  (∀ s, i.state = some s → s.status = .pendingCreate ∨ s.status.terminal = true) →
    i.ready = false ∧ i.due = none

theorem Quiet.of_active (hs : i.state = some s) (hpend : s.status ≠ .pendingCreate)
    (hterm : s.status.terminal = false) : Quiet i := by
  intro h
  rcases h s hs with h | h
  · exact absurd h hpend
  · cases hterm.symm.trans h

theorem Quiet.of_eq (h : Quiet i) (hs : i'.state = i.state)
    (hready : i.ready = false → i'.ready = false) (hdue : i.due = none → i'.due = none) :
    Quiet i' := by
  intro hi
  rw [hs] at hi
  exact ⟨hready (h hi).1, hdue (h hi).2⟩

theorem Quiet.of_none (hready : i.ready = false) (hdue : i.due = none) : Quiet i :=
  fun _ => ⟨hready, hdue⟩

/-- No script adds a token to an instance that is not to be run, except that an event may be
    sent to a reserved one. -/
theorem Quiet.effect (h : Quiet i) (hc : Calls cfg n k c) (heff : Effect cfg i c x i')
    (hsend : ∀ p ty pre t g cr, c = .sendEvent p ty pre t g cr →
      ∀ s, incarnation g cr i = some s → s.status ≠ .pendingCreate) : Quiet i' := by
  have active : ∀ {st : Status}, st = .queued ∨ st = .running ∨ st = .waiting →
      st ≠ .pendingCreate ∧ st.terminal = false := by
    rintro st (rfl | rfl | rfl) <;> exact ⟨by decide, rfl⟩
  cases heff with
  | idle => exact h
  | claimed s hs hst => exact .of_active rfl (by simp) rfl
  | released s hs =>
    have hst := active (hc.2.2.imp_right .inr)
    exact .of_active rfl hst.1 hst.2
  | clearedReady s _ hs hst | cleared s hs hst =>
    have hst' := active (.inr (.inr hst))
    exact .of_active rfl hst'.1 hst'.2
  | dueMoved s hs hst =>
    have hst' := active (hst.imp_right .inr)
    exact .of_active rfl hst'.1 hst'.2
  | requeued s hs hst => exact .of_active rfl (by simp) rfl
  | dueMovedFree s hs hst =>
    have hst' := active (hst.imp_right .inr)
    exact .of_active hs hst'.1 hst'.2
  | terminalRequeued s hs hst =>
    have hst' := active (.inr (.inr hst))
    exact .of_active hs hst'.1 hst'.2
  | dueDropped => exact h.of_eq rfl id fun _ => rfl
  | terminalUnready | missingUnready => exact h.of_eq rfl (fun _ => rfl) id
  | pruned | staleDropped | tokenRemoved => exact h.of_eq rfl id id
  | stepSucceeded s hs | stepFailed s hs =>
    have hst' := active (.inr (claimFence_ok hs).2.2)
    exact .of_active rfl hst'.1 hst'.2
  | stepRetried s hs | restored s hs => exact .of_active rfl (by simp) rfl
  | recorded s hs =>
    have hst' := active (.inr hc.stateStatus)
    exact .of_active rfl hst'.1 hst'.2
  | eventStored s hs hst hg hcr =>
    have hinc : incarnation _ _ i = some s :=
      filter_eq_some_iff.2 ⟨hs, decide_eq_true ⟨hg, hcr⟩⟩
    exact .of_active rfl (hsend _ _ _ _ _ _ rfl s hinc) hst
  | created hs =>
    have hi := h fun s hs' => (nomatch hs.symm.trans hs')
    exact .of_none hi.1 hi.2
  | finalized => exact .of_active rfl (by simp) rfl
  | pendingRemoved s hs =>
    obtain ⟨hs, -, hst, -⟩ := pendingUnder_some hs
    have hi := h fun s' hs' => by
      cases hs.symm.trans hs'
      exact .inl hst
    exact .of_none hi.1 hi.2
  | paused | terminated | terminalOverflow | terminalCommitted => exact .of_none rfl rfl
  | resumed | restarted => exact .of_active rfl (by simp) rfl
  | expired s e hs hst =>
    obtain ⟨hs, -⟩ := incarnation_some hs
    have hi := h fun s' hs' => by
      cases hs.symm.trans hs'
      exact .inr hst
    exact .of_none hi.1 hi.2

/-! ## Marks -/

/-- An event in the lives of an instance. -/
inductive Mark
  /-- The create with this token reserved the instance. -/
  | reserved (token createdAt version : ℕ)
  /-- The create with this token published it. -/
  | published (token : ℕ)
  /-- The instance, or the reservation of it, was deleted. -/
  | deleted
  deriving DecidableEq

namespace Mark

/-- The token under which the instance was reserved. -/
def token : Mark → Option ℕ
  | reserved t _ _ => some t
  | _ => none

/-- The creation time with which the instance was reserved. -/
def createdAt : Mark → Option ℕ
  | reserved _ c _ => some c
  | _ => none

end Mark

/-- The events that a script brings about. -/
def Script.marks : Script → Instance → Instance → List Mark
  | .createInstance a, i, i' =>
    if i.state.isNone && i'.state.isSome then [.reserved a.pendingToken a.now a.frozenVersion]
    else []
  | .finalizeCreateInstance token _, i, i' =>
    if (pendingUnder i token).isSome && (pendingUnder i' token).isNone then [.published token]
    else []
  | _, i, i' => if i.state.isSome && i'.state.isNone then [.deleted] else []

/-- The events that a call brings about. -/
def record : Call → Db → Db → List Mark
  | .redis c, db, db' => c.marks db.inst db'.inst
  | _, _, _ => []

/-- The store of the service with the events of the lives of the instance. -/
abbrev Tracked := Recorded Db Mark

/-- The service, with the events of the lives of the instance recorded. -/
def tracked (cfg : Service) : System api Tracked Kind WorkflowError Result Env :=
  (workflows cfg).recorded record

/-- A state of the service and its past. -/
abbrev TrackedWorld := World api Tracked Kind WorkflowError Result

/-- The states that the service can reach, with the past of each. -/
abbrev TrackedReachable (cfg : Service) : TrackedWorld → Prop :=
  (tracked cfg).Reachable (System.Unrecorded Db.Initial)

theorem Script.marks_self (c : Script) (i : Instance) : c.marks i i = [] := by
  have gone : ∀ {α : Type} (o : Option α), (o.isSome && o.isNone) = false := by
    rintro α (_ | _) <;> rfl
  cases c with
  | createInstance =>
    rw [Script.marks, Bool.and_comm, gone]
    rfl
  | _ => simp only [Script.marks, gone, Bool.false_eq_true, if_false]

theorem Script.marks_of_life_eq (hl : ¬ c.Lives) (h : i'.life = i.life) : c.marks i i' = [] := by
  have hstate : (i.state.isSome && i'.state.isNone) = false := by
    cases hs : i.state with
    | none => rfl
    | some s =>
      have hs' : i'.state ≠ none := by
        rw [Ne, ← life_eq_absent, h, life_eq_absent, hs]
        exact some_ne_none s
      rw [isNone_eq_false_iff.2 (isSome_iff_ne_none.2 hs')]
      rfl
  cases c with
  | createInstance | finalizeCreateInstance => exact absurd trivial hl
  | _ => simp only [Script.marks, hstate, Bool.false_eq_true, if_false]

/-- A script that is no reservation or publication, and after which there is a state, brings
    nothing about. -/
theorem Script.marks_of_state (hs' : i'.state = some s')
    (hc : ∀ a, c ≠ .createInstance a) (hf : ∀ t m, c ≠ .finalizeCreateInstance t m) :
    c.marks i i' = [] := by
  cases c with
  | createInstance a => exact absurd rfl (hc a)
  | finalizeCreateInstance t m => exact absurd rfl (hf t m)
  | _ => simp [Script.marks, hs']

theorem Script.marks_of_removed (hs : i.state = some s) (hs' : i'.state = none)
    (hc : ∀ a, c ≠ .createInstance a) (hf : ∀ t m, c ≠ .finalizeCreateInstance t m) :
    c.marks i i' = [.deleted] := by
  cases c with
  | createInstance a => exact absurd rfl (hc a)
  | finalizeCreateInstance t m => exact absurd rfl (hf t m)
  | _ => simp [Script.marks, hs, hs']

/-- A reserved instance that is no longer reserved after its publication has been published. -/
theorem Script.marks_of_published {t m : ℕ} (hs : pendingUnder i t = some s)
    (hs' : i'.state = some s') (hst' : s'.status ≠ .pendingCreate) :
    (Script.finalizeCreateInstance t m).marks i i' = [.published t] := by
  have hgone : pendingUnder i' t = none := by
    rw [pendingUnder, hs', filter_some, if_neg (by simp [hst'])]
  rw [Script.marks, hs, hgone]
  rfl

/-- Only a reservation under the token brings about that it is reserved under it. -/
theorem Script.of_reserved_mem {t createdAt version : ℕ}
    (h : .reserved t createdAt version ∈ c.marks i i') :
    ∃ a, c = .createInstance a ∧ a.pendingToken = t := by
  cases c with
  | createInstance a =>
    rw [Script.marks] at h
    split at h
    · exact ⟨a, rfl, (Mark.reserved.inj (List.mem_singleton.1 h)).1.symm⟩
    · exact absurd h List.not_mem_nil
  | _ =>
    simp only [Script.marks] at h
    split at h <;> simp at h

/-! ## The order of events -/

/-- Some events ago the create with this token published the instance, and the instance was
    deleted since. -/
def DeletedSince (past : List Mark) (token : ℕ) : Prop :=
  ∃ later earlier, past = later ++ .deleted :: earlier ∧ .published token ∈ earlier

/-- The instance was published by the second create, deleted, and then published by the
    first. -/
def DeletedBetween (past : List Mark) (a b : ℕ) : Prop :=
  ∃ later earlier, past = later ++ .published a :: earlier ∧ DeletedSince earlier b

/-- No two reservations were made with the same creation time. -/
def Fresh (past : List Mark) : Prop := (past.filterMap Mark.createdAt).Nodup

variable {past : List Mark} {m : Mark} {a b : ℕ}

theorem DeletedSince.cons (h : DeletedSince past b) (m : Mark) : DeletedSince (m :: past) b := by
  obtain ⟨later, earlier, rfl, hmem⟩ := h
  exact ⟨m :: later, earlier, rfl, hmem⟩

theorem DeletedSince.of_deleted (h : .published b ∈ past) : DeletedSince (.deleted :: past) b :=
  ⟨[], past, rfl, h⟩

theorem DeletedBetween.cons (h : DeletedBetween past a b) (m : Mark) :
    DeletedBetween (m :: past) a b := by
  obtain ⟨later, earlier, rfl, hdel⟩ := h
  exact ⟨m :: later, earlier, rfl, hdel⟩

theorem DeletedBetween.of_published (h : DeletedSince past b) :
    DeletedBetween (.published a :: past) a b := ⟨[], past, rfl, h⟩

theorem Fresh.of_append {ms : List Mark} (h : Fresh (ms ++ past)) : Fresh past := by
  rw [Fresh, List.filterMap_append] at h
  exact (List.nodup_append.1 h).2.1

theorem Fresh.of_cons (h : Fresh (m :: past)) : Fresh past := by
  have h' : Fresh ([m] ++ past) := h
  exact h'.of_append

theorem Fresh.not_mem {t c v : ℕ} (h : Fresh (.reserved t c v :: past)) :
    c ∉ past.filterMap Mark.createdAt := by
  exact (List.nodup_cons.1 h).1

end Wdl.Workflow
