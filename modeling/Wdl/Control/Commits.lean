import Wdl.Control.Transactions

/-!
# Transactions as if they were atomic

For each session of the control plane: when it commits in a database, it knows of that
database what its structure says, and its writes are those of the transaction.
-/

namespace Wdl.Control

open List

open Session (Ensures Seen Commits)

variable {α β : Type} {A : Db → Prop} {R : Db → Db → Prop} {db : Db} {W : Set Key}

/-! ## Rules for sessions -/

variable {e : Failure}

section Rules

variable {Q : Set Key → β → Prop} {f : Unit → SessionM β}

variable {c : Prop} [Decidable c]

theorem ensures_refuseIf {Q : Set Key → Unit → Prop} (h : ¬ c → Q W ()) :
    Ensures A R db W (refuseIf c e) Q :=
  .ite (fun _ => trivial) h

theorem ensures_refuseIf_bind (h : ¬ c → Ensures A R db W (f ()) Q) :
    Ensures A R db W (refuseIf c e >>= f) Q := Ensures.bind (ensures_refuseIf h)

theorem ensures_ofExcept_bind {x : Except Failure α} {f : α → SessionM β}
    (h : ∀ a, x = .ok a → Ensures A R db W (f a) Q) : Ensures A R db W (ofExcept x >>= f) Q := by
  cases x with
  | ok a => exact h a rfl
  | error e => trivial

end Rules

variable {T : (Db → Db) → Prop} {p : SessionM (Verdict Db α)}

theorem ensures_retrying (h : Ensures A R db W p (Commits T)) :
    Ensures A R db W (retrying p) (Commits T) := by
  induction p generalizing W with
  | ret v => exact h
  | fail e => cases e <;> trivial
  | call c f ih =>
    cases c with
    | watch ks => exact ih _ h
    | read k => exact fun d hd => ih _ (h d hd)
    | scan p => exact fun l hl => ih _ (h l hl)

theorem mayLeave_of_retrying {a : α} (h : (retrying p).MayLeave a) :
    p.MayLeave a := by
  induction p with
  | ret v => exact h
  | fail e => cases e <;> exact h.elim
  | call c f ih =>
    obtain ⟨x, h⟩ := h
    exact ⟨x, ih x h⟩

variable {o : Outlook} {w : WorkerId}

/-! ## Hosts -/

theorem reconcileSession_ensures (hA : ∀ d, A d → o.inv d) (ns : Ns)
    (body : Finset Host) (db : Db) :
    Ensures A o.rel db ∅ (reconcileSession ns body)
      (Commits fun m => ∃ toAdd removals, m = stageDeclaredHostChanges ns toAdd removals ∧
        HostsReconciled o db ns toAdd removals) := by
  refine .watch_bind (.read_bind (by simp) ?_)
  have hrem : ∀ host ∈ (db.hosts ns \ body).sort (· ≤ ·), host ∉ body \ db.hosts ns := by
    intro host hhost
    simp_all
  dsimp only [Db.get]
  generalize (db.hosts ns \ body).sort (· ≤ ·) = toRemove at hrem
  refine .ite (fun _ => trivial) fun _ => .watch_bind (.watch_bind
    (.peek_bind fun d hd => ?_))
  refine .forEach_check (P := fun host =>
    ∀ slot held, (db.patterns host).lookup slot = some held → held.ns ≠ ns) (fun host hhost => ?_)
    fun hfree _ => ?_
  · have hmem := (mem_filter.1 hhost).1
    refine .read_bind (by simp [hmem]) (ensures_refuseIf fun hany => ⟨rfl, ?_⟩)
    exact fun slot held hheld hns => hany (Hash.any_iff.2 ⟨slot, held, hheld, hns⟩)
  refine .forEach_map (F := fun host => (host, db.hostDeclarations host))
    (fun host hhost => .read_bind (by simp [hhost]) ⟨rfl, rfl⟩) ?_
  refine ⟨_, _, rfl, ?_, fun r hr => ?_, fun r hr => ?_⟩
  · rw [Finset.disjoint_right]
    simpa using hrem
  · obtain ⟨host, -, rfl⟩ := mem_map.1 hr
    rfl
  · obtain ⟨host, hhost, rfl⟩ := mem_map.1 hr
    by_cases hns : host ∈ d.nsHosts ns
    · exact .inl (hfree host (mem_filter.2 ⟨hhost, decide_eq_true hns⟩))
    · -- the index did not list the host, when its slots were those of the commit
      exact .inr ⟨d, hA d hd.inv, hd.later, hns, hd.same (.patterns host) (by simp [hhost])⟩

/-! ## Databases -/

theorem commitDatabaseSession_ensures (ns : Ns) (databaseName databaseId : String) (until' : ℕ)
    (db : Db) :
    Ensures A R db ∅ (commitDatabaseSession ns databaseName databaseId until')
      (Commits fun m => m = stageDatabaseCommit ns databaseName databaseId until' ∧
        db.database (ns, databaseId) = none ∧ db.databaseName (ns, databaseName) = none) := by
  refine .watch_bind (.read_bind (by simp) (.read_bind (by simp) ?_))
  refine .ite (fun _ => trivial) fun hname => .ite (fun _ => trivial) fun hnone => ?_
  exact ⟨rfl, not_not.1 hnone, not_not.1 hname⟩

theorem markReadySession_ensures (ns : Ns) (database : DatabaseRecord) (db : Db) :
    Ensures A R db ∅ (markReadySession ns database)
      (Commits fun m => ∃ c, m = stageDatabaseReady ns database c ∧
        DatabaseStored db ns database.databaseId c .provisional ∧
        db.databaseName (ns, database.databaseName) = some database.databaseId) := by
  refine .watch_bind (.read_bind (by simp) (.read_bind (by simp) ?_))
  split
  · trivial
  rename_i c hcurrent
  refine .ite (fun _ => trivial) fun hc => .ite (fun _ => trivial) fun hname => ?_
  push Not at hc hname
  exact ⟨c, rfl, ⟨hcurrent, hc.1, hc.2⟩, hname⟩

theorem rollbackProvisionalSession_ensures (ns : Ns) (database : DatabaseRecord) (db : Db) :
    Ensures A R db ∅ (rollbackProvisionalSession ns database)
      (Commits fun m => ∃ c, m = stageDatabaseRemoval ns database .rolledBack
          (db.databaseName (ns, database.databaseName) = some database.databaseId) ∧
        DatabaseStored db ns database.databaseId c .provisional) := by
  refine .watch_bind (.read_bind (by simp) (.read_bind (by simp) ?_))
  split
  · trivial
  rename_i c hcurrent
  refine .ite (fun _ => trivial) fun hc => ?_
  push Not at hc
  exact ⟨c, rfl, hcurrent, hc.1, hc.2⟩

theorem deleteDatabaseSession_ensures (ns : Ns) (database : DatabaseRecord) (db : Db) :
    Ensures A R db ∅ (deleteDatabaseSession ns database)
      (Commits fun m => ∃ c, m = stageDatabaseRemoval ns database .deleted
          (db.databaseName (ns, database.databaseName) = some database.databaseId) ∧
        DatabaseStored db ns database.databaseId c .ready ∧
        db.databaseReferrers (ns, database.databaseId) = ∅) := by
  refine .watch_bind (.read_bind (by simp) (.read_bind (by simp)
    (.read_bind (by simp) ?_)))
  split
  · trivial
  rename_i c hcurrent
  refine .ite (fun _ => trivial) fun hc => .ite (fun _ => trivial) fun hr => ?_
  push Not at hc hr
  exact ⟨c, rfl, ⟨hcurrent, hc.1, hc.2⟩, hr⟩

/-! ## Secrets and versions -/

theorem mutateSecretSession_ensures (w : WorkerId) (key : String) (mutation : SecretMutation)
    (db : Db) :
    Ensures A R db ∅ (mutateSecretSession w key mutation)
      (Commits fun m => ∃ last, m = stageWorkerSecretMutation w key mutation false last ∧
        SecretChanged db w key mutation last) := by
  refine .watch_bind (.read_bind (by simp)
    (ensures_refuseIf_bind fun _ => .read_bind (by simp) ?_))
  refine .ite (fun _ => trivial) fun _ => .read_bind (by simp)
    (.read_bind (by simp) ?_)
  refine .ite (fun _ => trivial) fun hmissing => ?_
  push Not at hmissing
  cases mutation with
  | put value =>
    refine .peek_bind fun d _ => ⟨_, rfl, ?_, ?_⟩ <;>
    · intro h
      cases h
  | delete =>
    refine .read_bind (by simp) ⟨_, rfl, hmissing, ?_⟩
    simp [Db.get]

theorem versionDeleteSession_ensures (w : WorkerId) (version : Version) (token : LockToken)
    (db : Db) :
    Ensures A R db ∅ (versionDeleteSession w version token)
      (Commits fun m => ∃ srcMeta last nothingLeft,
        m = stageRetainedVersionDelete w version srcMeta last nothingLeft ∧
        VersionDeleted db w version srcMeta last nothingLeft) := by
  refine .watch_bind (.read_bind (by simp) (ensures_refuseIf_bind fun _ =>
    .read_bind (by simp) (ensures_refuseIf_bind fun hinactive =>
    .read_bind (by simp) (ensures_refuseIf_bind fun hretained =>
    ensures_refuseIf_bind fun _ => .read_bind (by simp) ?_))))
  split
  · trivial
  rename_i m hcandidate
  refine .read_bind (by simp) (ensures_refuseIf_bind fun hunreferenced =>
    .read_bind (by simp) (.read_bind (by simp) ?_))
  exact ⟨m, _, _, rfl, hinactive, not_not.1 hretained, hcandidate, not_not.1 hunreferenced,
    decide_eq_true_iff, decide_eq_true_iff⟩

/-! ## Deleting workers -/

variable {P : Db → Prop}

theorem Outlook.Before.mono (htrans : ∀ a b c, o.rel a b → o.rel b c → o.rel a c)
    {db' : Db} (h : o.Before db P) (hrel : o.rel db db') : o.Before db' P := by
  obtain ⟨d, hd, hlater, hP⟩ := h
  exact ⟨d, hd, htrans _ _ _ hlater hrel, hP⟩

theorem Outlook.Before.of_seen (hA : ∀ d, A d → o.inv d) {d : Db}
    (hd : Seen keyed A o.rel db W d) (hP : P d) : o.Before db P :=
  ⟨d, hA d hd.inv, hd.later, hP⟩

theorem collectVersion_ensures (hA : ∀ d, A d → o.inv d) (version : Version)
    (db : Db) (w : WorkerId) :
    Ensures A o.rel db W (collectVersion w version)
      fun W' x => W' = W ∧ x.1 = version ∧
        o.Before db fun d => d.bundle (w.1, w.2, version) = some x.2.1 := by
  refine .peek_bind fun d hd => .peek_bind fun _ _ => ?_
  split
  · rename_i hcandidate
    exact ⟨rfl, rfl, .of_seen hA hd hcandidate⟩
  · exact .peek_bind fun _ _ => ensures_refuseIf_bind fun _ => trivial

theorem collectActiveRoutes_ensures (hA : ∀ d, A d → o.inv d) {metas : List (Version × Meta)}
    (hmetas : ∀ x ∈ metas, o.Before db fun d => d.bundle (w.1, w.2, x.1) = some x.2)
    (active : Option Version) :
    Ensures A o.rel db W (collectActiveRoutes w metas active)
      fun W' routes => W' = W ∧ match active with
        | none => routes = []
        | some version => ∃ m, routes = m.routes ∧
          o.Before db fun d => d.bundle (w.1, w.2, version) = some m := by
  cases active with
  | none => exact ⟨rfl, rfl⟩
  | some version =>
    rw [collectActiveRoutes]
    cases hlookup : metas.lookup version with
    | some m => exact ⟨rfl, m, rfl, hmetas (version, m) (mem_of_lookup hlookup)⟩
    | none =>
      refine .peek_bind fun d hd => ?_
      split
      · rename_i m hcandidate
        exact ⟨rfl, m, rfl, .of_seen hA hd hcandidate⟩
      · exact .peek_bind fun _ _ => ensures_refuseIf_bind fun _ => trivial

/-- The queues that a worker consumes all the time are found. -/
theorem scanQueueConsumerKeysForWorker_ensures :
    Ensures A R db W (scanQueueConsumerKeysForWorker w)
      fun W' queues => W' = W ∧ ∀ queue, (∀ d, Seen keyed A R db W d →
        ∃ p, (d.queueConsumers w.1).lookup queue = some p ∧ p.worker = w.2) → queue ∈ queues := by
  intro keys hkeys
  refine .forEach (P := fun queue x => x.1 = queue ∧
    ∃ d, Seen keyed A R db W d ∧ x.2 = (d.queueConsumers w.1).lookup queue) (fun queue _ => ?_)
    fun held hheld => ⟨rfl, fun queue hqueue => ?_⟩
  · exact fun d hd => ⟨rfl, rfl, d, hd, rfl⟩
  · have hkey : Key.queueConsumer w.1 queue ∈ keys := by
      refine hkeys _ (by simp) fun d hd => ?_
      obtain ⟨p, hp, -⟩ := hqueue d hd
      exact Option.isSome_iff_exists.2 ⟨p, hp⟩
    obtain ⟨x, hx, rfl, d, hd, hx2⟩ := exists_of_forall₂ hheld (a := queue)
      (mem_filterMap.2 ⟨_, hkey, by simp⟩)
    obtain ⟨p, hp, hworker⟩ := hqueue d hd
    have hany : x.2.any (fun p => decide (p.worker = w.2)) = true := by simp [hx2, hp, hworker]
    simp only [mem_toFinset, mem_map, mem_filter]
    exact ⟨x, ⟨hx, hany⟩, rfl⟩

theorem collectDeleteInputs_ensures (hA : ∀ d, A d → o.inv d) (db : Db)
    (w : WorkerId) :
    Ensures A o.rel db W (collectDeleteInputs w)
      fun _ c => Collected o db w c := by
  refine .peek_bind fun _ _ => .seq scanQueueConsumerKeysForWorker_ensures
    fun W' queues hq => ?_
  refine .peek_bind fun d _ => .forEach
    (fun version _ => collectVersion_ensures hA version db w)
    fun collected hcollected => ?_
  have hmetas : ∀ x ∈ collected.map fun x => (x.1, x.2.1),
      o.Before db fun d => d.bundle (w.1, w.2, x.1) = some x.2 := by
    intro x hx
    obtain ⟨y, hy, rfl⟩ := mem_map.1 hx
    obtain ⟨version, -, rfl, hbefore⟩ := exists_of_forall₂_right hcollected hy
    exact hbefore
  have hversions : ∀ version, version ∈ (collected.map fun x => (x.1, x.2.1)).map Prod.fst ↔
      version ∈ d.workerVersions w := by
    intro version
    rw [map_map, ← Finset.mem_sort (· ≤ ·)]
    constructor
    · intro h
      obtain ⟨y, hy, rfl⟩ := mem_map.1 h
      obtain ⟨version, hmem, hy1, -⟩ := exists_of_forall₂_right hcollected hy
      rwa [← hy1] at hmem
    · intro h
      obtain ⟨y, hy, hy1, -⟩ := exists_of_forall₂ hcollected h
      exact mem_map.2 ⟨y, hy, hy1⟩
  refine .peek_bind fun _ _ =>
    .seq (collectActiveRoutes_ensures hA hmetas _) fun W' activeRoutes hroutes => ?_
  exact .peek_bind fun _ _ => .peek_bind fun _ _ => ⟨hversions, hroutes.2⟩

theorem workerDeleteSession_ensures (hA : ∀ d, A d → o.inv d) {c : DeleteInputs} {w : WorkerId}
    (token : LockToken) {db : Db} (hc : Collected o db w c) :
    Ensures A o.rel db ∅ (workerDeleteSession w c token)
      (Commits fun m => ∃ losing stillActive, m = stageWorkerDelete w c losing stillActive ∧
        WorkerDeleted o db w c losing stillActive) := by
  refine .watch_bind (.read_bind (by simp) (ensures_refuseIf_bind fun _ =>
    .read_bind (by simp) (ensures_refuseIf_bind fun hsame =>
    .read_bind (by simp) (ensures_refuseIf_bind fun hactive =>
    ensures_refuseIf_bind fun _ => ?_))))
  refine .forEach_map (F := fun host => (host, db.patterns host)) (fun host hhost =>
    .read_bind (by simp [hhost]) ⟨rfl, rfl⟩) ?_
  refine .read_bind (by simp) (.read_bind (by simp)
    (ensures_refuseIf_bind fun hsecrets => ensures_refuseIf_bind fun _ => ?_))
  refine .forEach_map (F := fun version => db.referrers (w.1, w.2, version)) (fun version hv =>
    .read_bind (by simp_all) ⟨rfl, rfl⟩) ?_
  refine .seq scanQueueConsumerKeysForWorker_ensures
    fun W' queues hq => ?_
  obtain ⟨rfl, hscan⟩ := hq
  refine ensures_refuseIf_bind fun hqueues =>
    ensures_refuseIf_bind fun hunreferenced =>
    ensures_refuseIf_bind fun _ => ?_
  refine .forEach_map (F := fun queue => (db.queueConsumers w.1).lookup queue)
    (fun queue hqueue =>
    .read_bind (by simp_all) ⟨rfl, rfl⟩) ?_
  refine ensures_refuseIf_bind fun hheld => ?_
  push Not at hsame hactive hsecrets hqueues hunreferenced hheld
  refine ⟨_, _, rfl, hc, hsame, hactive, ?_, ?_, rfl, decide_eq_true_iff, ?_, ?_⟩
  · rw [← hsecrets]
    exact decide_eq_true_iff
  · exact fun version hv => hunreferenced _ (mem_map.2 ⟨version, by simpa using hv, rfl⟩)
  · refine fun queue hqueue => hqueues ▸ hscan queue fun d hd => hqueue d (hA d hd.inv) hd.later ?_
    exact hd.same (.routes w.1) (by simp)
  · intro queue hqueue p hp
    have hfree := hheld _ (mem_map.2 ⟨queue, by simpa using hqueue, rfl⟩)
    rw [hp] at hfree
    simpa using hfree

theorem residualDeleteSession_ensures (w : WorkerId) (c : DeleteInputs)
    (token : LockToken) (db : Db) :
    Ensures A R db ∅ (residualDeleteSession w c token)
      (Commits fun m => ∃ hasStorage hasPolicy, m = stageResidualDelete w hasStorage hasPolicy ∧
        ResidueDeleted db w hasPolicy) := by
  refine .watch_bind (.read_bind (by simp) (ensures_refuseIf_bind fun _ =>
    .read_bind (by simp) (.read_bind (by simp) (.read_bind (by simp)
    (.read_bind (by simp) (.read_bind (by simp)
    (ensures_refuseIf_bind fun hgone => ?_)))))))
  refine .read_bind (by simp) (ensures_refuseIf_bind fun _ =>
    .ite (fun _ => trivial) fun _ => ?_)
  push Not at hgone
  exact ⟨_, _, rfl, hgone.1, hgone.2.1, hgone.2.2.1, hgone.2.2.2, decide_eq_true_iff⟩

/-! ## Activations -/

/-- A part of an activation: it watches what was watched and maybe more, and `P` is known of its
    result. -/
abbrev Part (W : Set Key) (P : α → Prop) (W' : Set Key) (a : α) : Prop := W ⊆ W' ∧ P a

theorem assertBundleDependenciesPresent_ensures (ns : Ns) (d1Refs : List D1Ref)
    (outgoing : List OutgoingRef) :
    Ensures A R db W (assertBundleDependenciesPresent ns d1Refs outgoing)
      (Part W fun _ => True) := by
  have hcheck {k : Key} {W : Set Key} {e : Failure} {missing : k.Val → Prop}
      [∀ v, Decidable (missing v)] :
      Ensures A R db W (read k >>= fun v => refuseIf (missing v) e) fun W' _ => W' = W ∧ True :=
    .peek_bind fun _ _ => ensures_refuseIf fun _ => ⟨rfl, trivial⟩
  exact .watch_bind (.forEach_check (P := fun _ => True) (fun _ _ => hcheck) fun _ _ =>
    Ensures.forEach_check (P := fun _ => True) (fun _ _ => hcheck) fun _ _ =>
      ⟨Set.subset_union_left, trivial⟩)

theorem assertQueueConsumerOwnership_ensures (old new : List QueueConsumer) :
    Ensures A R db W (assertQueueConsumerOwnership w old new)
      (Part W fun _ => ∀ c ∈ new, ∀ held,
        (db.queueConsumers w.1).lookup c.queue = some held → held.worker = w.2) := by
  refine .watch_bind (.forEach_check (fun c hc => ?_)
    fun hqueues _ => ⟨Set.subset_union_left, hqueues⟩)
  have hmem : Key.queueConsumer w.1 c.queue ∈
      (old ++ new).map fun c => Key.queueConsumer w.1 c.queue :=
    mem_map.2 ⟨c, by simp [hc], rfl⟩
  refine .read_bind (.inr hmem) (ensures_refuseIf fun hfree => ⟨rfl, fun p hp => ?_⟩)
  simpa [Db.get, hp] using hfree

/-- A bundle that is not there is an error, unless its route has moved. -/
theorem retryIfRouteChanged_ensures {Q : Set Key → α → Prop} (version : Version) :
    Ensures A R db W (retryIfRouteChanged w version >>= fun _ => .fail e) Q :=
  .peek_bind fun _ _ => ensures_refuseIf_bind fun _ => trivial

theorem readMeta_ensures (hA : ∀ d, A d → o.inv d) :
    Ensures A o.rel db W (readMeta w ((db.routes w.1).lookup w.2)) (Part W (OldMeta o db w)) := by
  cases hlookup : (db.routes w.1).lookup w.2 with
  | none => exact ⟨le_rfl, by rw [OldMeta, hlookup]⟩
  | some version =>
    refine .peek_bind fun d hd => ?_
    split
    · rename_i m hcandidate
      refine ⟨le_rfl, ?_⟩
      rw [OldMeta, hlookup]
      exact ⟨m, rfl, .of_seen hA hd hcandidate⟩
    · exact retryIfRouteChanged_ensures version

theorem assertDeclaredHosts_ensures (hhosts : Key.hosts w.1 ∈ W) (routes : List RoutePattern) :
    Ensures A R db W (assertDeclaredHosts w.1 routes)
      (Part W fun _ => ∀ r ∈ routes, r.host ∈ db.hosts w.1) := by
  refine .read_bind hhosts (ensures_refuseIf fun hdeclared => ⟨le_rfl, ?_⟩)
  push Not at hdeclared
  exact hdeclared

/-- The slots are read as they are, and those of the new routes are free or of the worker. -/
theorem readHostState_ensures (routes : List RoutePattern) {hosts : List Host}
    (hpatterns : ∀ host ∈ hosts, Key.patterns host ∈ W) (hhosts : ∀ r ∈ routes, r.host ∈ hosts) :
    Ensures A R db W (readHostStateAndAssertRouteConflicts w routes hosts)
      (Part W fun state => state = hosts.map (fun host => (host, db.patterns host)) ∧
        (∀ r ∈ routes, ∀ slot held, (db.patterns r.host).lookup slot = some held → held.ns = w.1) ∧
        ∀ r ∈ routes, ∀ held, (db.patterns r.host).lookup r.slot = some held →
          (held.ns, held.worker) = w) := by
  refine .forEach_map (F := fun host => (host, db.patterns host)) (fun host hhost =>
    .read_bind (hpatterns host hhost) ⟨rfl, rfl⟩) ?_
  refine ensures_refuseIf_bind fun hfree => ⟨le_rfl, rfl, ?_, ?_⟩
  · intro r hr slot held hheld
    by_contra hne
    refine hfree ⟨r, hr, .inl ?_⟩
    rw [HostState.at_map (hhosts r hr) db.patterns]
    exact Hash.any_iff.2 ⟨slot, held, hheld, hne⟩
  · intro r hr held hheld
    by_contra hne
    refine hfree ⟨r, hr, .inr ?_⟩
    rw [HostState.at_map (hhosts r hr) db.patterns, hheld]
    simpa using hne

theorem assertPlatformAsAvailable_ensures (exports : List ExportEntry) :
    Ensures A R db W (assertPlatformAsAvailable w exports) (Part W fun _ => True) := by
  rw [assertPlatformAsAvailable]
  split
  · refine .watch_bind (.forEach_check (P := fun _ => True) (fun ns _ => ?_)
      fun _ _ => ⟨Set.subset_union_left, trivial⟩)
    refine .peek_bind fun _ _ => .forEach_check (P := fun _ => True)
      (fun e _ => .peek_bind fun _ _ => ?_) fun _ _ => ⟨rfl, trivial⟩
    split
    · exact retryIfRouteChanged_ensures e.2
    · exact ensures_refuseIf fun _ => ⟨rfl, trivial⟩
  · exact ⟨le_rfl, trivial⟩

variable {newVersion : Version} {m : Meta}

theorem promoteCandidate_ensures (hA : ∀ d, A d → o.inv d) (hv : validVersion newVersion)
    (hm : db.bundle (w.1, w.2, newVersion) = some m)
    (hhosts : Key.hosts w.1 ∈ W) (hcron : Key.cron w ∈ W) (hcronSeq : Key.cronSequence w ∈ W) :
    Ensures A o.rel db W (promoteCandidate w newVersion m ((db.routes w.1).lookup w.2)
      (db.sessionPolicySequence w) (db.sessionPolicy w))
      (Commits fun f => ∃ p, f = stagePromoteWithRoutes w p ∧ Promoted o db w p) := by
  refine ensures_refuseIf_bind fun _ =>
    ensures_refuseIf_bind fun _ =>
    ensures_refuseIf_bind fun _ => ?_
  refine .seq (assertBundleDependenciesPresent_ensures w.1 _ _) fun W₁ _ hpresent =>
    Ensures.seq (readMeta_ensures hA) fun W₂ oldMeta hold =>
    Ensures.seq (assertQueueConsumerOwnership_ensures _ m.queueConsumers)
    fun W₃ _ hqueues => ?_
  have hW₃ : W ⊆ W₃ := (hpresent.1.trans hold.1).trans hqueues.1
  refine .watch_bind (.seq
    (assertDeclaredHosts_ensures (.inl (hW₃ hhosts)) m.routes) fun W₄ _ hdeclared => ?_)
  refine .seq (readHostState_ensures (w := w) m.routes (fun host hhost => ?_)
    fun r hr => ?_) fun W₅ state hstate => ?_
  · exact hdeclared.1 (.inr (mem_map.2 ⟨host, hhost, rfl⟩))
  · exact mem_eraseDups.2 (mem_map.2 ⟨r, mem_append_right _ hr, rfl⟩)
  refine .seq (assertPlatformAsAvailable_ensures m.exports) fun W₆ _ has => ?_
  have hW₆ : W ⊆ W₆ := fun k hk => has.1 (hstate.1 (hdeclared.1 (.inl (hW₃ hk))))
  refine .read_bind (hW₆ hcron) (.read_bind (hW₆ hcronSeq)
    (ensures_ofExcept_bind fun _ _ => ensures_ofExcept_bind fun plan hplan => ?_))
  exact ⟨_, rfl, hv, hm, hold.2, hqueues.2, rfl, hdeclared.2, hstate.2.1, hstate.2.2.1,
    hstate.2.2.2, hplan⟩

theorem promoteSession_ensures (hA : ∀ d, A d → o.inv d) (w : WorkerId)
    (hv : validVersion newVersion) (db : Db) :
    Ensures A o.rel db ∅ (promoteSession w newVersion)
      (Commits fun m => ∃ p, m = stagePromoteWithRoutes w p ∧ Promoted o db w p) := by
  refine .watch_bind (.read_bind (by simp) (.read_bind (by simp)
    (.read_bind (by simp)
    (.read_bind (by simp) (.read_bind (by simp)
    (ensures_refuseIf_bind fun _ => ?_))))))
  split
  · trivial
  · rename_i m hcandidate
    exact promoteCandidate_ensures hA hv hcandidate (by simp) (by simp) (by simp)

/-- What is staged with a bump. -/
def Stages (w : WorkerId) (staged : Db → Db) : Prop :=
  ∃ key mutation, staged = stageWorkerSecretMutation w key mutation true false

theorem stageWorkerSecretForBump_ensures (key : String) (mutation : SecretMutation) :
    Ensures A R db W (stageWorkerSecretForBump w key mutation) (Part W (Stages w)) := by
  refine .watch_bind (.read_bind (by simp)
    (ensures_refuseIf_bind fun _ => ?_))
  exact ⟨Set.subset_union_left, key, mutation, rfl⟩

/-- What the session of a bump does. -/
abbrev BumpWrites (o : Outlook) (db : Db) (w : WorkerId) (f : Db → Db) : Prop :=
  ∃ p key mutation, f =
    (fun db => stageBump w p (stageWorkerSecretMutation w key mutation true false db)) ∧
    Bumped o db w p

theorem bumpActive_ensures {currentVersion : Version} (hheld : o.held (w.1, w.2, newVersion) db)
    (hv : validVersion newVersion) (hactive : (db.routes w.1).lookup w.2 = some currentVersion)
    (hm : db.bundle (w.1, w.2, currentVersion) = some m) (hhosts : Key.hosts w.1 ∈ W) (key : String)
    (mutation : SecretMutation) :
    Ensures A R db W (bumpActive w currentVersion newVersion m (db.sessionPolicySequence w)
      (db.sessionPolicy w) (stageWorkerSecretForBump w key mutation))
      (Commits (BumpWrites o db w)) := by
  refine ensures_refuseIf_bind fun _ =>
    ensures_refuseIf_bind fun _ =>
    ensures_ofExcept_bind fun plan hplan => ?_
  refine .seq (assertDeclaredHosts_ensures hhosts m.routes) fun W₁ _ hdeclared =>
    Ensures.seq (assertBundleDependenciesPresent_ensures w.1 _ _) fun W₂ _ _ =>
    .watch_bind (.watch_bind ?_)
  refine .read_bind (by simp)
    (.read_bind (by simp) (ensures_ofExcept_bind fun cronSequence hseq => ?_))
  refine .watch_bind (.seq (stageWorkerSecretForBump_ensures key mutation)
    fun W₃ staged hstaged => ?_)
  obtain ⟨-, key', mutation', rfl⟩ := hstaged
  exact ⟨_, key', mutation', rfl, hv, hheld, hactive, hm, hdeclared.2, hseq, hplan⟩

theorem bumpSession_ensures (w : WorkerId) (hheld : o.held (w.1, w.2, newVersion) db)
    (hv : validVersion newVersion) (key : String) (mutation : SecretMutation) :
    Ensures A R db ∅ (bumpSession w newVersion fun _ => stageWorkerSecretForBump w key mutation)
      (Commits (BumpWrites o db w)) := by
  refine .watch_bind (.read_bind (by simp) (.read_bind (by simp)
    (.read_bind (by simp)
    (.read_bind (by simp) (ensures_refuseIf_bind fun _ => ?_)))))
  dsimp only [Db.get]
  cases hactive : (db.routes w.1).lookup w.2 with
  | none => trivial
  | some currentVersion =>
    refine .watch_bind (.read_bind (by simp) ?_)
    split
    · exact retryIfRouteChanged_ensures currentVersion
    · rename_i m hcandidate
      exact bumpActive_ensures hheld hv hactive hcandidate (by simp) key mutation

/-! ## Deploys -/

theorem resolveDatabaseRefFrom_ensures (ns : Ns) (ref : String) :
    Ensures A R db W (resolveDatabaseRefFrom read ns ref)
      fun W' r => W' = W ∧ ∀ database, r = some database → database.state = .ready ∧
        ∃ id d, Seen keyed A R db W d ∧ d.database (ns, id) = some database := by
  refine .peek_bind fun d hd => .peek_bind fun _ _ => ?_
  split
  · rename_i database hbyId
    refine ⟨rfl, fun record hrecord => ?_⟩
    split at hrecord
    · cases hrecord
      exact ⟨by assumption, ref, d, hd, hbyId⟩
    · cases hrecord
  · split
    · exact ⟨rfl, nofun⟩
    · rename_i id _
      refine .peek_bind fun d hd => ⟨rfl, fun record hrecord => ?_⟩
      obtain ⟨hsome, hready⟩ := Option.filter_eq_some_iff.1 hrecord
      exact ⟨by simpa using hready, id, d, hd, hsome⟩

theorem resolveD1RefForCommit_ensures (hA : ∀ d, A d → o.inv d) (ns : Ns) (ref : D1Ref) :
    Ensures A o.rel db W (resolveD1RefForCommit ns ref)
      fun W' resolved => W ⊆ W' ∧ Resolved o db ns ref resolved := by
  refine .seq (resolveDatabaseRefFrom_ensures ns ref.databaseId)
    fun W₁ r hr => ?_
  obtain ⟨rfl, -⟩ := hr
  cases r with
  | none => trivial
  | some database =>
    refine .watch_bind
      (.seq (resolveDatabaseRefFrom_ensures ns database.databaseId) fun W₂ r hr => ?_)
    obtain ⟨rfl, hfound⟩ := hr
    cases r with
    | none => trivial
    | some current =>
      by_cases hid : current.databaseId = database.databaseId
      · obtain ⟨hready, id, d, hd, hstored⟩ := hfound current rfl
        simp only [if_pos hid]
        refine ⟨Set.subset_union_left, rfl, hready, id, .of_seen hA hd hstored, fun hsame => ?_⟩
        -- the record is read under the identifier that is watched
        have hwatched := hd.same (.database ns id) (by simp [hsame, hid])
        exact hwatched.symm.trans hstored
      · simp only [if_neg hid]
        trivial

theorem validateOutgoingRefForCommit_ensures (ref : OutgoingRef)
    (hlock : Key.deleteLock (ref.target.1, ref.target.2.1) ∈ W)
    (hroutes : Key.routes ref.target.1 ∈ W)
    (hbundle : Key.bundle ref.target ∈ W) :
    Ensures A R db W (validateOutgoingRefForCommit ref)
      fun W' _ => W' = W ∧
        (db.routes ref.target.1).lookup ref.target.2.1 = some ref.target.2.2 ∧
        db.bundle ref.target ≠ none := by
  refine .read_bind hlock (.read_bind hroutes (.read_bind hbundle ?_))
  exact ensures_refuseIf_bind fun _ =>
    ensures_refuseIf_bind fun hactive =>
    ensures_refuseIf fun hstored => ⟨rfl, not_not.1 hactive, hstored⟩

variable {prepared : Meta}

theorem mem_commitKeys {ref : OutgoingRef}
    (href : ref ∈ extractOutgoingRefs prepared.bindings w.1) {k : Key}
    (hk : k ∈ [.routes ref.target.1, .bundle ref.target,
      .deleteLock (ref.target.1, ref.target.2.1)]) :
    k ∈ commitKeys w prepared :=
  mem_append_right _ (mem_flatMap.2 ⟨ref, href, hk⟩)

theorem deployCommitSession_ensures (hA : ∀ d, A d → o.inv d) {v : VersionId} (fresh : FreshIds)
    (hheld : o.held v db) (hrequest : ∃ raw r bindings, prepareDeployRequest v.1 raw = .ok r ∧
      prepared = preparedMeta r bindings ∧ Linked o db (v.1, v.2.1) r.platformBindings bindings) :
    Ensures A o.rel db ∅ (deployCommitSession v prepared fresh)
      (Commits fun m => ∃ refs storageId workflowKey,
        m = stageDeployCommit v prepared refs storageId workflowKey ∧
        Deployed o db v prepared refs) := by
  refine .watch_bind (.forEach_watching (P := Resolved o db v.1)
    (fun ref _ V hV => (resolveD1RefForCommit_ensures hA v.1 ref)) fun refs V hV hresolved => ?_)
  refine .read_bind (hV (by simp [commitKeys])) (ensures_refuseIf_bind fun _ => ?_)
  refine .forEach_check (fun ref href => validateOutgoingRefForCommit_ensures ref
    (hV (.inr (mem_commitKeys href (by simp)))) (hV (.inr (mem_commitKeys href (by simp))))
    (hV (.inr (mem_commitKeys href (by simp))))) fun htargets _ => ?_
  refine .peek_bind fun _ _ => .peek_bind fun _ _ => ?_
  exact ⟨refs, _, _, rfl, hheld, hrequest, hresolved, htargets⟩

end Wdl.Control
