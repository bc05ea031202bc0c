import Wdl.Workflow.Creation

/-!
# Creates and indexes

The results about the lives of an instance, over every run of the service.

* Of two creates that both answer that they created the instance, one did so after the
  instance that the other created had been deleted.
* A create settles its own reservation only, and when a reservation is removed nothing of it
  is left.
* The index by worker holds the instance as long as it has a state. The indexes by version and
  by workflow follow the state as long as no two reservations are made with the same creation
  time (`Fresh`); two creates that read their clock in the same millisecond can be far apart in
  the order of the store (`staleWorld`). A terminated instance is no longer in
  use by its version, although its state exists (`terminated_instance_leaves_version`).
-/

namespace Wdl.Workflow

open Instance Tracked

variable {cfg : Service}

/-- The rely-guarantee proof of the service. -/
def livesProof (cfg : Service) :
    System.RelyGuarantee (tracked cfg) (System.Unrecorded Db.Initial) fun _ _ => True where
  inv := Agrees
  rely n _ := Rely n
  guar := Guar cfg
  compat _ _ _ _ := True
  inv_init x hx := by
    unfold Agrees
    rw [hx.2, hx.1.1]
    exact .absent
  rely_refl n _ := Rely.refl n
  rely_trans _ _ _ _ _ h h' := h.trans h'
  guar_inv _ _ _ _ ha hg := hg.agrees ha
  guar_rely _ _ _ _ _ _ hne _ _ hg := hg.rely hne
  env_inv w e x' _ ha he := (env_rely 0 he).agrees ha
  env_rely w e x' n _ _ _ he := env_rely n he
  spawn_compat _ _ _ _ _ _ _ _ _ _ := ⟨trivial, trivial⟩
  spawn_safe w n k hw ha hfree _ := by
    have hunres : Unreserved n w.store :=
      fun created v hmem => reserved_proc hw n created v hmem hfree
    exact ((body_keeps cfg n k) w.store ⟨ha, hunres⟩).mono fun _ _ _ => trivial

variable {w : TrackedWorld}

/-- In every reachable state the keys of the instance agree with its past. -/
theorem TrackedReachable.agrees (h : TrackedReachable cfg w) : Agrees w.store :=
  ((livesProof cfg).holds h).inv

/-! ## Creates that report -/

/-- The process has answered that it created the instance. -/
def ReportsCreated (w : TrackedWorld) (n : ℕ) : Prop :=
  ∃ p o, w.proc n = some p ∧ p.prog.outcome = some (.ok (.created o)) ∧ o.created = true

/-- A create that answers that it created the instance has published it. -/
theorem TrackedReachable.published (h : TrackedReachable cfg w) {n : ℕ} (hn : ReportsCreated w n) :
    .published n ∈ w.store.past := by
  obtain ⟨p, o, hp, hout, ho⟩ := hn
  have hsafe := (livesProof cfg).safe_post (fun _ _ _ _ => trivial)
    (Q := fun n _ r x => ∀ a, r = .ok a → ReportsResult n a x) (fun w n k hw ha hfree => ?_) h hp
  · exact hsafe.outcome (.refl n) hout _ rfl o rfl ho
  · exact body_keeps cfg n k w.store
      ⟨ha, fun created v hmem => reserved_proc hw n created v hmem hfree⟩

/-! ## Settling a reservation -/

/-- The step publishes or removes the reservation under this token. -/
def Settles (t : ℕ) : Label api Kind Env → Prop
  | .call _ (.redis (.finalizeCreateInstance t' _)) _ => t' = t
  | .call _ (.redis (.cleanupPendingCreate t' _)) _ => t' = t
  | _ => False

/-- The step removes the reservation under this token. -/
def Removes (t : ℕ) : Label api Kind Env → Prop
  | .call _ (.redis (.cleanupPendingCreate t' _)) _ => t' = t
  | _ => False

variable {l : Label api Kind Env} {w' : TrackedWorld} {t : ℕ}

theorem Settles.ran (hl : Settles t l)
    (hs : (tracked cfg).Step w l w') :
    w'.store = w.store ∨ (∃ m y, Ran cfg (.finalizeCreateInstance t m) y w.store w'.store) ∨
      ∃ v y, Ran cfg (.cleanupPendingCreate t v) y w.store w'.store := by
  cases hs with
  | @call i k c next x s hi hc =>
    cases c with
    | redis script =>
      cases script with
      | finalizeCreateInstance t' m =>
        obtain rfl : t' = t := hl
        rcases redis_cases hc with ⟨rfl, -⟩ | ⟨y, hran, -⟩
        · exact .inl rfl
        · exact .inr (.inl ⟨m, y, hran⟩)
      | cleanupPendingCreate t' v =>
        obtain rfl : t' = t := hl
        rcases redis_cases hc with ⟨rfl, -⟩ | ⟨y, hran, -⟩
        · exact .inl rfl
        · exact .inr (.inr ⟨v, y, hran⟩)
      | _ => exact hl.elim
    | now | control | dispatchRuntime => exact hl.elim
  | spawn | stop | env => exact hl.elim

/-- A create leaves an instance alone that is not reserved under its token. -/
theorem Settles.inst_eq (hl : Settles t l)
    (hs : (tracked cfg).Step w l w') (hnone : pendingUnder w.store.now.inst t = none) :
    w'.store.now.inst = w.store.now.inst := by
  rcases hl.ran hs with heq | ⟨m, y, hran⟩ | ⟨v, y, hran⟩
  · rw [heq]
  · have heff := Script.exec_effect _ hran.exec
    generalize w'.store.now.inst = i' at heff
    cases heff with
    | idle => rfl
    | finalized s hp => cases hnone.symm.trans hp
  · have heff := Script.exec_effect _ hran.exec
    generalize w'.store.now.inst = i' at heff
    cases heff with
    | idle => rfl
    | pendingRemoved s hp => cases hnone.symm.trans hp

variable {s : State}

/-- Whatever removes a reserved instance removes its version from the index, too. -/
theorem Tracked.Guar.version_removed {n : ℕ} {k : Kind} {x x' : Tracked} (h : Guar cfg n k x x')
    (ha : Agrees x) (hs : x.now.inst.state = some s) (hst : s.status = .pendingCreate)
    (hs' : x'.now.inst.state = none) : s.frozenVersion ∉ x'.now.inst.byVersion := by
  rcases h with rfl | ⟨c, y, hc, ho, hran⟩
  · rw [hs] at hs'
    cases hs'
  · have heff := c.exec_effect hran.exec
    revert hs'
    generalize x'.now.inst = i' at heff
    intro hs'
    have hl : c.Lives := by
      by_contra hl
      have hlife := (heff.life_eq hc hl).1
      rw [life_of_missing hs', life_of_state hs] at hlife
      exact s.life_ne_absent hlife.symm
    cases heff with
    | @pendingRemoved t v s' hp =>
      obtain ⟨hp, -, -, htoken⟩ := pendingUnder_some hp
      cases hs.symm.trans hp
      have hlife := (life_of_state hs).trans (State.life_of_pending hst)
      obtain ⟨t', ht', hmem⟩ := ha.pending _ _ _ hlife
      cases htoken.symm.trans ht'
      obtain rfl := ho _ _ hmem
      exact Finset.notMem_erase _ _
    | expired s' e hinc hterm =>
      cases hs.symm.trans (incarnation_some hinc).1
      rw [hst] at hterm
      cases hterm
    | idle =>
      cases hs.symm.trans hs'
    | created | finalized | paused | resumed | terminated | restarted => cases hs'
    | _ => exact hl.elim

theorem Removes.settles (hl : Removes t l) : Settles t l := by
  unfold Removes at hl
  split at hl
  · exact hl
  · exact hl.elim

/-- When a reservation is removed, nothing of it is left. -/
theorem Removes.nothing_left (hl : Removes t l)
    (h : TrackedReachable cfg w) (hs : (tracked cfg).Step w l w')
    (hstate : w.store.now.inst.state = some s) (hgone : w'.store.now.inst.state = none) :
    w'.store.now.inst.keys = Instance.absent.keys ∧ w'.store.now.inst.byWorker = false ∧
      s.frozenVersion ∉ w'.store.now.inst.byVersion ∧ w'.store.now.inst.byWorkflow = none ∧
      (Fresh w'.store.past → w'.store.now.inst.ready = false) := by
  have h' : TrackedReachable cfg w' := .step h trivial hs
  have hlife : w'.store.now.inst.life = .absent := life_of_missing hgone
  have hremoved : s.status = .pendingCreate ∧ w'.store.now.inst.keys = absent.keys := by
    rcases hl.settles.ran hs with heq | ⟨m, y, hran⟩ | ⟨v, y, hran⟩
    · rw [heq, hstate] at hgone
      cases hgone
    · have heff := Script.exec_effect _ hran.exec
      generalize w'.store.now.inst = i' at heff hgone
      cases heff with
      | idle => cases hstate.symm.trans hgone
      | finalized => cases hgone
    · have heff := Script.exec_effect _ hran.exec
      generalize w'.store.now.inst = i' at heff hgone
      cases heff with
      | idle => cases hstate.symm.trans hgone
      | pendingRemoved s' hp =>
        obtain ⟨hp, -, hst, -⟩ := pendingUnder_some hp
        cases hstate.symm.trans hp
        exact ⟨hst, rfl⟩
  refine ⟨hremoved.2, ?_, ?_, h'.agrees.byWorkflow (by rw [hlife]; rfl), fun hf => ?_⟩
  · rw [← Bool.not_eq_true, h'.agrees.byWorker, hlife]
    exact fun hne => hne rfl
  · cases hs with
    | call i hi hc =>
      exact ((livesProof cfg).call_guar h hi hc).version_removed h.agrees hstate hremoved.1 hgone
    | spawn | stop | env => exact hl.elim
  · exact ((h'.agrees.indexed hf).quiet fun s hs => (nomatch hgone.symm.trans hs)).1

/-! ## The results -/

/-- **Creates are idempotent and indexed.** In every reachable state: of two creates that both
    answered that they created the instance, one published it after the instance of the other
    had been deleted. A step that publishes or removes the reservation of one create leaves the
    reservation of another alone. After a reservation has been removed nothing of it is left.
    The index by worker holds the instance if and only if it has a state; and if no two
    reservations were made with the same creation time, the index by version holds it exactly
    under the frozen version of a state that has not been terminated, and the index by
    workflow if and only if it is published. -/
theorem create_idempotent_and_indexed {w : TrackedWorld} (h : TrackedReachable cfg w) :
    (∀ a b, a ≠ b → ReportsCreated w a → ReportsCreated w b →
      DeletedBetween w.store.past a b ∨ DeletedBetween w.store.past b a) ∧
    (∀ l w' t t' s, (tracked cfg).Step w l w' → Settles t l →
      w.store.now.inst.state = some s → s.status = .pendingCreate →
      s.pendingCreateToken = some t' → t' ≠ t → w'.store.now.inst = w.store.now.inst) ∧
    (∀ l w' t s, (tracked cfg).Step w l w' → Removes t l →
      w.store.now.inst.state = some s → w'.store.now.inst.state = none →
      w'.store.now.inst.keys = Instance.absent.keys ∧ w'.store.now.inst.byWorker = false ∧
      s.frozenVersion ∉ w'.store.now.inst.byVersion ∧ w'.store.now.inst.byWorkflow = none ∧
      (Fresh w'.store.past → w'.store.now.inst.ready = false)) ∧
    (w.store.now.inst.byWorker = true ↔ ∃ s, w.store.now.inst.state = some s) ∧
    (Fresh w.store.past →
      (∀ v, v ∈ w.store.now.inst.byVersion ↔
        ∃ s, w.store.now.inst.state = some s ∧ s.status ≠ .terminated ∧ s.frozenVersion = v) ∧
      (w.store.now.inst.byWorkflow.isSome = true ↔
        ∃ s, w.store.now.inst.state = some s ∧ s.status ≠ .pendingCreate)) := by
  have ha := h.agrees
  refine ⟨fun a b hne hra hrb => ?_, fun l w' t t' s hs hl hstate hst htoken hne => ?_,
    fun l w' t s hs hl hstate hgone => ?_, ?_, fun hf => ⟨fun v => ?_, ?_⟩⟩
  · exact ha.separated a b hne (h.published hra) (h.published hrb)
  · refine hl.inst_eq hs ?_
    rw [pendingUnder, hstate, Option.filter_some, if_neg (by simp [htoken, hne])]
  · exact hl.nothing_left h hs hstate hgone
  · rw [ha.byWorker, Ne, life_eq_absent, ← Ne, Option.ne_none_iff_exists']
  · rw [(ha.indexed hf).byVersion, mem_versions]
  · rw [← isVisible_iff]
    refine ⟨fun hsome => ?_, (ha.indexed hf).byWorkflow⟩
    by_contra hinvisible
    rw [ha.byWorkflow (by simpa using hinvisible)] at hsome
    cases hsome

/-- The answers of a store whose clock stands still, with what each call brings about. -/
noncomputable def Tracked.answer (cfg : Service) (now version : ℕ) (c : Call) (x : Tracked) :
    api.Ans c × Tracked :=
  let y := x.now.answer cfg now version .malformed c
  (y.1, ⟨y.2, record c x.now y.2 ++ x.past⟩)

/-- The service after one create that had it to itself. -/
noncomputable def createdWorld : TrackedWorld :=
  let r := (body .standard 0 (.create ⟨.null, 1000, 1000⟩)).drive
    (Tracked.answer .standard 100 7) 10 ⟨Db.empty, []⟩
  World.setProc ⟨r.2, fun _ => none⟩ 0 ⟨.create ⟨.null, 1000, 1000⟩, r.1, true⟩

theorem createdWorld_reachable : TrackedReachable .standard createdWorld := by
  have hinit : TrackedReachable .standard ⟨⟨Db.empty, []⟩, fun _ => none⟩ := .init ⟨⟨rfl, rfl⟩, rfl⟩
  have hcall : ∀ c (x : Tracked),
    (tracked .standard).call c x (Tracked.answer .standard 100 7 c x).1
      (Tracked.answer .standard 100 7 c x).2 :=
    fun c x => ⟨Db.call_answer .standard 100 7 .malformed c x.now, rfl⟩
  have hruns := Prog.drive_runs hcall 10 (body .standard 0 (.create ⟨.null, 1000, 1000⟩))
    ⟨Db.empty, []⟩
  exact hinit.steps (.start (fun _ _ _ _ => trivial) .refl rfl trivial hruns)

theorem create_idempotent_and_indexed_created :
    ReportsCreated createdWorld 0 ∧ Fresh createdWorld.store.past ∧
    (∃ s, createdWorld.store.now.inst.state = some s ∧ s.frozenVersion = 7) ∧
    7 ∈ createdWorld.store.now.inst.byVersion := by
  obtain ⟨-, -, -, -, hindexed⟩ := create_idempotent_and_indexed createdWorld_reachable
  have hpast : createdWorld.store.past = [.published 0, .reserved 0 100 7] := rfl
  have hfresh : Fresh createdWorld.store.past := by
    rw [hpast, Fresh]
    decide
  refine ⟨⟨_, _, rfl, rfl, rfl⟩, hfresh, ⟨_, rfl, rfl⟩, ((hindexed hfresh).1 7).2 ?_⟩
  exact ⟨_, rfl, by decide, rfl⟩

/-! ## Where the indexes leave the state -/

/-- An instance that was created and terminated. -/
noncomputable def terminatedWorld : ServiceWorld :=
  (ServiceWorld.initial.alone .standard 0 (.create ⟨.null, 1000, 1000⟩) 10 100 7 .malformed).alone
    .standard 1 .terminate 10 200 7 .malformed

/-- The state of a terminated instance exists, but no version has the instance in its index. -/
theorem terminated_instance_leaves_version :
    Reachable .standard terminatedWorld ∧
    terminatedWorld.store.inst.state.map (fun s => (s.status, s.frozenVersion)) =
      some (.terminated, 7) ∧ terminatedWorld.store.inst.byVersion = ∅ :=
  ⟨((Reachable.initial .standard).alone rfl _ _ _ _ _).alone rfl _ _ _ _ _, rfl, rfl⟩

/-- Two creates read their clock at the time `100`. The first creates the instance for version
    `7`. A request reads it, and while the request is on its way the instance completes and is
    deleted, its retention being zero. Then the second create, which is for version `9`, makes
    some calls. -/
noncomputable def recreatedWorld (k : Kind) (calls calls' : ℕ) : ServiceWorld :=
  ((((ServiceWorld.initial.alone .standard 0 (.create ⟨.null, 0, 0⟩) 10 100 7 .malformed).alone
    .standard 1 k calls 100 8 .malformed).alone
    .standard 2 .dispatch 20 100 7 (.completed examplePayload)).alone
    .standard 3 .retention 10 100 7 .malformed).alone
    .standard 4 (.create ⟨.null, 0, 0⟩) calls' 100 9 .malformed

/-- The request arrives. -/
noncomputable def staleWorld (k : Kind) (calls calls' : ℕ) : ServiceWorld :=
  (recreatedWorld k calls calls').further .standard 1 1 100 8 .malformed

theorem staleWorld_reachable (k : Kind) (calls calls' : ℕ) :
    Reachable .standard (staleWorld k calls calls') := by
  have h₀ := ((Reachable.initial .standard).alone rfl (.create ⟨.null, 0, 0⟩) 10 100 7 .malformed
    (i := 0)).alone rfl k calls 100 8 .malformed (i := 1)
  have h₁ := (h₀.alone rfl .dispatch 20 100 7 (.completed examplePayload) (i := 2)).alone rfl
    .retention 10 100 7 .malformed (i := 3)
  have h₂ := h₁.alone rfl (.create ⟨.null, 0, 0⟩) calls' 100 9 .malformed (i := 4)
  exact h₂.further rfl 1 100 8 .malformed

/-- A restart takes the second instance for the first, and leaves it in the index of the version
    `9` that it is no longer of. -/
theorem stale_restart_leaves_version :
    (staleWorld .restart 9 10).store.inst.state.map (·.frozenVersion) = some 8 ∧
    (staleWorld .restart 9 10).store.inst.byVersion = {8, 9} :=
  ⟨rfl, rfl⟩

/-- A request terminates the second instance before it is published, so that the index by workflow
    misses it. -/
theorem stale_terminate_unpublished :
    (staleWorld .terminate 2 5).store.inst.state.map (·.status) = some .terminated ∧
    (staleWorld .terminate 2 5).store.inst.byWorkflow = none :=
  ⟨rfl, rfl⟩

/-- An event is sent to the second instance before it is published. The reservation expires, and
    what reads it then removes it. -/
noncomputable def staleEventWorld : ServiceWorld :=
  (staleWorld (.sendEvent (some [97]) examplePayload) 2 5).alone .standard 5 .status 10
    (101 + Api.pendingCreateTtlMs) 9 .malformed

theorem stale_event_leaves_ready :
    staleEventWorld.store.inst.state = none ∧ staleEventWorld.store.inst.ready = true :=
  ⟨rfl, rfl⟩

/-- **The indexes are not the state.** The index by version does not hold a terminated instance
    although its state exists. After a request that was meant for an earlier instance of the same
    creation time, an index by version may hold an instance that is not frozen at the version, the
    index by workflow may miss one that is no longer reserved, and a removed reservation may leave
    an entry among those that are ready. -/
theorem version_index_differs_from_state :
    (∃ w s, Reachable .standard w ∧ w.store.inst.state = some s ∧
      s.frozenVersion ∉ w.store.inst.byVersion) ∧
    (∃ w s v, Reachable .standard w ∧ w.store.inst.state = some s ∧ v ∈ w.store.inst.byVersion ∧
      v ≠ s.frozenVersion) ∧
    (∃ w s, Reachable .standard w ∧ w.store.inst.state = some s ∧ s.status ≠ .pendingCreate ∧
      w.store.inst.byWorkflow = none) ∧
    ∃ w, Reachable .standard w ∧ w.store.inst.state = none ∧ w.store.inst.ready = true := by
  refine ⟨?_, ?_, ?_, ?_⟩
  · obtain ⟨hreach, -, hversions⟩ := terminated_instance_leaves_version
    exact ⟨_, _, hreach, rfl, Finset.notMem_empty _⟩
  · refine ⟨_, _, 9, staleWorld_reachable .restart 9 10, rfl, ?_, ?_⟩
    · rw [stale_restart_leaves_version.2]
      decide
    · change 9 ≠ 8
      decide
  · exact ⟨_, _, staleWorld_reachable .terminate 2 5, rfl, nofun, stale_terminate_unpublished.2⟩
  · exact ⟨_, (staleWorld_reachable _ 2 5).alone rfl _ _ _ _ _, stale_event_leaves_ready⟩

end Wdl.Workflow
