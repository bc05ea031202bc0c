import Wdl.Control.Coherence

/-!
# What the control plane guarantees

From an empty database on, whatever requests run on whatever replicas and wherever they stop:

* `dependencies_never_dangle`: what a stored bundle pins exists, and has recorded it;
* `indexes_mirror_what_exists`: the indexes of versions, workers and namespaces are right, and
  nothing is left of a worker right after it is deleted;
* `bindings_permitted`: the access list of the very version that a binding pins permits it;
* `routes_coherent`: slots are exactly the route patterns of active versions, on hosts that
  are declared and belong to one namespace;
* `queue_consumers_owned`: the consumers of queues are exactly those that active versions declare;
* `versions_written_once`: what is stored under a version never changes.
-/

namespace Wdl.Control

open Function

/-! ## Dependencies -/

/-- **Pinned dependencies never dangle.** In every reachable world, what a binding of a stored
    bundle pins is stored, or is a database that is ready, and has the binding among its
    referrers. -/
theorem dependencies_never_dangle {w : ControlWorld} (h : control.Reachable Initial w)
    {v : VersionId} {m : Meta} (hm : w.store.db.bundle v = some m) :
    (∀ binding ns service version entrypoint secrets,
      (binding, Binding.service ns service (some version) entrypoint secrets) ∈ m.bindings →
        w.store.db.bundle (ns.getD v.1, service, version) ≠ none ∧
          callerReferrerMember v binding ∈ w.store.db.referrers (ns.getD v.1, service, version)) ∧
    (∀ binding databaseId databaseName, (binding, Binding.d1 databaseId databaseName) ∈ m.bindings →
      (∃ r, w.store.db.database (v.1, databaseId) = some r ∧ r.state = .ready) ∧
        callerReferrerMember v binding ∈ w.store.db.databaseReferrers (v.1, databaseId)) := by
  have href := (coherent_of_reachable h).referenced
  refine ⟨fun binding ns service version entrypoint secrets hb => ?_,
    fun binding databaseId databaseName hb => ?_⟩
  · have hmem : (⟨(ns.getD v.1, service, version), binding⟩ : OutgoingRef) ∈
        extractOutgoingRefs m.bindings v.1 :=
      mem_extractOutgoingRefs.2 ⟨ns, service, version, entrypoint, secrets, hb, rfl⟩
    exact ⟨href.target v m hm _ hmem, href.recorded v m hm _ hmem⟩
  · have hmem : (⟨binding, databaseId⟩ : D1Ref) ∈ extractD1Refs m.bindings :=
      mem_extractD1Refs.2 ⟨databaseName, hb⟩
    exact ⟨href.database v m hm _ hmem, href.databaseRecorded v m hm _ hmem⟩

/-- A worker that offers its default entrypoint to the namespace `shop`. -/
def authRequest : DeployRequest :=
  { DeployRequest.plain with exports := [⟨"default", ["shop"], none, none⟩] }

/-- A worker of the platform that offers its default entrypoint to all. -/
def mailRequest : DeployRequest :=
  { DeployRequest.plain with exports := [⟨"default", ["*"], some "MAIL", none⟩] }

/-- A worker that binds both, and a database. -/
def webRequest : DeployRequest :=
  { DeployRequest.plain with
    bindings := [("AUTH", .service (some "acme") "auth" none none none), ("DB", .d1 "main" none)]
    platformBindings := [⟨"MAILER", "MAIL"⟩] }

/-- A database is created, `acme/auth` and `__platform__/mail` are deployed and promoted, and
    `shop/web` is deployed. -/
def shopRequests : List Kind :=
  [.createDatabase "shop" "main" "db1" 1000 true, .deploy ("acme", "auth") authRequest ⟨"do1", id⟩,
    .promote ("acme", "auth") 1, .deploy ("__platform__", "mail") mailRequest ⟨"do2", id⟩,
    .promote ("__platform__", "mail") 1, .deploy ("shop", "web") webRequest ⟨"do3", id⟩]

/-- The bindings of `shop/web` are pinned to the versions and to the identifier of the database. -/
theorem shopRequests_bindings :
    ((serves 0 shopRequests Db.empty).bundle ("shop", "web", 1)).map
        (fun m => (m.bindings, m.platformBindings)) =
      some ([("AUTH", .service (some "acme") "auth" (some 1) none none),
        ("DB", .d1 "db1" (some "main")),
        ("MAILER", .service (some "__platform__") "mail" (some 1) none none)],
        [⟨"MAILER", "MAIL"⟩]) := by decide +kernel

/-- The version and the database that `shop/web` refers to know of it. -/
theorem dependencies_never_dangle_shop : ∃ w, control.Reachable Initial w ∧
    w.store.db.bundle ("acme", "auth", 1) ≠ none ∧
    ⟨"shop", "web", 1, "AUTH"⟩ ∈ w.store.db.referrers ("acme", "auth", 1) ∧
    (∃ r, w.store.db.database ("shop", "db1") = some r ∧ r.state = .ready) ∧
    ⟨"shop", "web", 1, "DB"⟩ ∈ w.store.db.databaseReferrers ("shop", "db1") := by
  obtain ⟨w, hw, hdb, -⟩ := exists_reachable_serves shopRequests
  obtain ⟨m, hm, hbindings⟩ := Option.map_eq_some_iff.1 (hdb ▸ shopRequests_bindings)
  obtain ⟨hservices, hdatabases⟩ := dependencies_never_dangle hw hm
  rw [(Prod.mk.inj hbindings).1] at hservices hdatabases
  obtain ⟨hstored, hrecorded⟩ := hservices "AUTH" (some "acme") "auth" 1 none none (by simp)
  obtain ⟨hready, hreferred⟩ := hdatabases "DB" "db1" (some "main") (by simp)
  exact ⟨w, hw, hstored, hrecorded, hready, hreferred⟩

/-! ## Access -/

/-- **No binding beyond the access list of its target.** In every reachable world, a binding of a
    stored bundle that pins a version is permitted by the metadata stored for that version, and an
    export of the platform is bound only if the deploy asked for it by its name. -/
theorem bindings_permitted {w : ControlWorld} (h : control.Reachable Initial w) {v : VersionId}
    {m : Meta} (hm : w.store.db.bundle v = some m) {binding : String} {ns : Option Ns}
    {service : Worker} {version : Version} {entrypoint : Option String}
    {secrets : Option (List String)}
    (hb : (binding, Binding.service ns service (some version) entrypoint secrets) ∈ m.bindings) :
    ∃ t, w.store.db.bundle (ns.getD v.1, service, version) = some t ∧
      Permitted v.1 (m.Asked binding) (ns.getD v.1, service, version) t
        (entrypoint.getD "default") (secrets.getD []) := by
  have hc := coherent_of_reachable h
  obtain ⟨t, ht, hpermitted⟩ := (hc.admitted v m (hc.numbered.stored v m hm)).pins _ _ _ _ _ _ hb
  have hmem : (⟨(ns.getD v.1, service, version), binding⟩ : OutgoingRef) ∈
      extractOutgoingRefs m.bindings v.1 :=
    mem_extractOutgoingRefs.2 ⟨ns, service, version, entrypoint, secrets, hb, rfl⟩
  obtain ⟨t', ht'⟩ := Option.ne_none_iff_exists'.1 (hc.referenced.target v m hm _ hmem)
  have hsame : t' = t := Option.some_inj.1 ((hc.numbered.stored _ t' ht').symm.trans ht)
  exact ⟨t, hsame ▸ ht', hpermitted⟩

/-- The binding of `shop/web` to `__platform__/mail` is permitted by the export of that worker,
    which `shop/web` has asked for. -/
theorem bindings_permitted_shop : ∃ w, control.Reachable Initial w ∧
    ∃ m, w.store.db.bundle ("shop", "web", 1) = some m ∧ m.Asked "MAILER" "MAIL" ∧
      ∃ t, w.store.db.bundle ("__platform__", "mail", 1) = some t ∧
        Permitted "shop" (m.Asked "MAILER") ("__platform__", "mail", 1) t "default" [] := by
  obtain ⟨w, hw, hdb, -⟩ := exists_reachable_serves shopRequests
  obtain ⟨m, hm, hbindings⟩ := Option.map_eq_some_iff.1 (hdb ▸ shopRequests_bindings)
  obtain ⟨hbindings, hasked⟩ := Prod.mk.inj hbindings
  have hb : ("MAILER", Binding.service (some "__platform__") "mail" (some 1) none none) ∈
      m.bindings := by
    simp [hbindings]
  exact ⟨w, hw, m, hm, by simp [Meta.Asked, hasked], bindings_permitted hw hm hb⟩

/-! ## Lifecycle -/

/-- Nothing of the worker exists. -/
structure WorkerGone (db : Db) (w : WorkerId) : Prop where
  bundles : ∀ version, db.bundle (w.1, w.2, version) = none
  versions : db.workerVersions w = ∅
  route : db.active w = none
  slots : ∀ host slot p, (db.patterns host).lookup slot = some p → (p.ns, p.worker) ≠ w
  cron : db.cron w = none
  queues : ∀ queue p, (db.queueConsumers w.1).lookup queue = some p → p.worker ≠ w.2
  secrets : db.workerSecrets w = ∅
  workflows : db.workflowDefs w = ∅
  policy : db.sessionPolicy w = none
  referrers : ∀ version, db.referrers (w.1, w.2, version) = ∅

variable {w : WorkerId}

/-- What is left of a worker without versions and without a route is nothing that was projected. -/
theorem Coherent.workerGone {db : Db} (h : Coherent db) (hversions : db.workerVersions w = ∅)
    (hactive : db.active w = none) (hsecrets : db.workerSecrets w = ∅)
    (hdefs : db.workflowDefs w = ∅) (hpolicy : db.sessionPolicy w = none) : WorkerGone db w := by
  have hbundles : ∀ version, db.bundle (w.1, w.2, version) = none := by
    intro version
    by_contra hne
    have hmem := (h.indexed.version w version).2 hne
    rw [hversions] at hmem
    exact absurd hmem (Finset.notMem_empty _)
  have hbundle : db.activeBundle w = none := Db.activeBundle_eq_none hactive
  refine ⟨hbundles, hversions, hactive, fun host slot p hp heq => ?_, ?_, fun queue p hp heq => ?_,
    hsecrets, hdefs, hpolicy, fun version => ?_⟩
  · have hmem := h.projected.slot_iff (k := (host, slot)).1 hp
    rw [heq, slotsOf_eq_nil hbundle] at hmem
    cases hmem
  · cases hcron : db.cron w with
    | none => rfl
    | some c => exact absurd (hactive.symm.trans (h.crons w c hcron)) (by simp)
  · have hmem := h.projected.queue_iff (k := (w.1, queue)).1 hp
    rw [show ((w.1, queue).1, p.worker) = w from Prod.ext rfl heq, queuesOf_eq_nil hbundle] at hmem
    cases hmem
  · rw [Finset.eq_empty_iff_forall_notMem]
    exact fun r hr => h.referenced.present _ r hr (hbundles version)

/-- A transaction that deletes a worker leaves nothing of it. -/
theorem Transaction.workerGone {i : ℕ} {db db' : Db} (ht : Transaction (outlook i) db db')
    (h : Coherent db) (hlog : db'.log = .deleted w :: db.log) : WorkerGone db' w := by
  have hc := ht.coherent h
  cases ht with
  | promote | bump => cases hlog
  | deleteWorker w' c losing stillActive d hd hgone =>
    cases hlog
    refine hc.workerGone ?_ ?_ (update_self ..) (update_self ..)
      (update_self ..)
    · rw [Finset.eq_empty_iff_forall_notMem]
      intro version hv
      obtain ⟨hv, hnot⟩ := (hgone.versions w version).1 hv
      exact hnot ⟨rfl, hd.versions ▸ hv⟩
    · exact (Directory.lookup_drop db.routes w w).trans (if_pos rfl)
  | deleteResidue w' hasStorage hasPolicy hr =>
    cases hlog
    refine hc.workerGone hr.versions hr.inactive hr.secrets hr.defs ?_
    cases hasPolicy with
    | true => exact update_self ..
    | false =>
      by_contra hne
      exact absurd (hr.policy.2 hne) (by decide)
  | deploy | secret | deleteVersion | hosts | createDatabase | databaseReady | removeDatabase =>
    exact absurd hlog.symm (List.cons_ne_self _ _)

theorem Change.workerGone {i : ℕ} {db db' : Db} (hchange : Change (outlook i) i db db')
    (h : Coherent db) (hlog : db'.log = .deleted w :: db.log) : WorkerGone db' w := by
  cases hchange with
  | stay => exact absurd hlog.symm (List.cons_ne_self _ _)
  | command c x db' own hstep =>
    obtain ⟨nextVersion, holder, deleteLock, rfl⟩ := Command.step_eq hstep
    exact absurd hlog.symm (List.cons_ne_self _ _)
  | transaction db' ht => exact ht.workerGone h hlog

/-- **Indexes mirror what exists.** In every reachable world the indexes of versions, workers and
    namespaces are right, and a step that deletes a worker leaves nothing of it. -/
theorem indexes_mirror_what_exists {w : ControlWorld} (h : control.Reachable Initial w) :
    (∀ worker version, version ∈ w.store.db.workerVersions worker ↔
      w.store.db.bundle (worker.1, worker.2, version) ≠ none) ∧
    (∀ worker version, w.store.db.active worker = some version →
      version ∈ w.store.db.workerVersions worker) ∧
    (∀ worker : WorkerId, worker.2 ∈ w.store.db.workersIndex worker.1 ↔
      w.store.db.workerVersions worker ≠ ∅ ∨ w.store.db.workerSecrets worker ≠ ∅ ∨
        w.store.db.workflowDefs worker ≠ ∅) ∧
    (∀ ns, ns ∈ w.store.db.namespaces ↔ w.store.db.routes ns ≠ ∅) ∧
    ∀ l w' worker, control.Step w l w' → w'.store.db.log = .deleted worker :: w.store.db.log →
      WorkerGone w'.store.db worker := by
  have hc := coherent_of_reachable h
  refine ⟨hc.indexed.version, hc.indexed.active, hc.indexed.worker, hc.indexed.namespaces,
    fun l w' worker hs hlog => ?_⟩
  have hinit : ∀ s, Initial s → coherence.inv s.db := by
    intro s hs
    rw [show s.db = Db.empty from hs]
    exact .empty
  rcases coherence.change_of_step hinit h hs with heq | ⟨i, hchange⟩ | ⟨e, heq⟩
  · rw [heq] at hlog
    exact absurd hlog.symm (List.cons_ne_self _ _)
  · exact Change.workerGone hchange hc hlog
  · obtain ⟨deleteLock, nsSecrets, heq'⟩ := e.apply_eq w.store.db
    rw [heq, heq'] at hlog
    exact absurd hlog.symm (List.cons_ne_self _ _)

/-- A version is deployed and promoted. -/
def activeDb : Db := serves 0
  [.deploy ("acme", "api") .plain ⟨"do1", id⟩, .promote ("acme", "api") 1] Db.empty

/-- A scan for the consumers of queues may find nothing when there are none. -/
theorem scan_queueless {db : Db} (h : db.queueConsumers = fun _ => ∅) {g : Key → Bool}
    (hg : ∀ k, g k = true → ∃ ns queue, k = .queueConsumer ns queue) :
    ∀ k, keyed.Present db k → g k → k ∈ ([] : List Key) := by
  intro k hk hgk
  obtain ⟨ns, queue, rfl⟩ := hg k hgk
  simp [h] at hk

/-- The indexes have the active version until the worker is deleted, and then nothing is left. -/
theorem indexes_mirror_what_exists_deleted : ∃ w l w', control.Reachable Initial w ∧
    w.store.db.active ("acme", "api") = some 1 ∧ w.store.db.bundle ("acme", "api", 1) ≠ none ∧
    "api" ∈ w.store.db.workersIndex "acme" ∧ control.Step w l w' ∧
    WorkerGone w'.store.db ("acme", "api") := by
  obtain ⟨w₀, h₀, (hdb₀ : _ = activeDb), hfree⟩ := exists_reachable_serves _
  -- the request to delete the worker scans for its queues when it collects what there is
  obtain ⟨t₁, hdb₁, hclean₁, hruns₁⟩ := Prog.alone_runs Command.answer_step
    (body 2 (.deleteWorker ("acme", "api"))) none w₀.store nofun
  rw [hdb₀] at hdb₁ hruns₁ hclean₁
  have hqueues₁ : t₁.db.queueConsumers = fun _ => ∅ := by rw [hdb₁]; rfl
  obtain ⟨t₂, hdb₂, hclean₂, hruns₂⟩ := hruns₁.scan hclean₁
    (scan_queueless hqueues₁ (by rintro (_ | _) h <;> simp at h ⊢))
  obtain ⟨t₃, hdb₃, hclean₃, hruns₃⟩ := hruns₂.alone Command.answer_step hclean₂
  rw [hdb₂, hdb₁] at hdb₃ hruns₃ hclean₃
  -- and again before it commits
  have hqueues₃ : t₃.db.queueConsumers = fun _ => ∅ := by rw [hdb₃]; with_unfolding_all rfl
  obtain ⟨g, f, m, next, hscan, hg, hf, hlog⟩ : ∃ g f m next,
      (body 2 (.deleteWorker ("acme", "api"))).Runs control.call w₀.store
        (.call (.scanStart 2) fun _ => .call (.scanEnd 2 g) f) t₃ ∧
      (∀ k, g k = true → ∃ ns queue, k = .queueConsumer ns queue) ∧
      f [] = .call (.exec 2 m) next ∧ (m t₃.db).log = .deleted ("acme", "api") :: t₃.db.log := by
    refine ⟨_, _, _, _, by with_unfolding_all exact hruns₃, ?_, by with_unfolding_all rfl, rfl⟩
    rintro (_ | _) h <;> simp at h ⊢
  obtain ⟨t, hdb, hclean, hruns⟩ := hscan.scan hclean₃ (scan_queueless hqueues₃ hg)
  rw [hf] at hruns
  obtain ⟨w, hsteps, rfl, hp, -⟩ := exists_steps_start (hfree 2 le_rfl) hruns
  have hw := h₀.steps hsteps
  have hs : control.Step w (.call 2 (.exec 2 m) true) _ :=
    .call 2 hp (.inl ⟨hclean 2 (by with_unfolding_all rfl), rfl, rfl⟩)
  have hactive : w.store.db.active ("acme", "api") = some 1 := by
    rw [hdb, hdb₃]
    decide +kernel
  obtain ⟨hversion, hindexed, hworker, -, hgone⟩ := indexes_mirror_what_exists hw
  have hmem := hindexed _ _ hactive
  refine ⟨w, _, _, hw, hactive, (hversion _ _).1 hmem, ?_, hs, hgone _ _ _ hs (hdb ▸ hlog)⟩
  exact (hworker ("acme", "api")).2 (.inl (Finset.ne_empty_of_mem hmem))

/-! ## Routes -/

/-- A worker with a route pattern. -/
def routedRequest : DeployRequest :=
  { DeployRequest.plain with routes := [⟨"acme.test", "/api/*", .leading, "/api/"⟩] }

/-- **Queues have one consumer.** In every reachable world the consumer of a queue names an active
    version that declares this queue with these settings; every queue of an active version has
    its consumer; so no two active workers of a namespace consume the same queue. -/
theorem queue_consumers_owned {w : ControlWorld} (h : control.Reachable Initial w) :
    (∀ ns queue p, (w.store.db.queueConsumers ns).lookup queue = some p →
      w.store.db.active (ns, p.worker) = some p.version ∧
        ∃ m, w.store.db.bundle (ns, p.worker, p.version) = some m ∧
          p.consumer ∈ m.queueConsumers ∧ p.consumer.queue = queue) ∧
    (∀ worker version m, w.store.db.active worker = some version →
      w.store.db.bundle (worker.1, worker.2, version) = some m → ∀ c ∈ m.queueConsumers,
        (w.store.db.queueConsumers worker.1).lookup c.queue = some ⟨worker.2, version, c⟩) ∧
    ∀ ns worker worker' version version' m m', w.store.db.active (ns, worker) = some version →
      w.store.db.bundle (ns, worker, version) = some m →
      w.store.db.active (ns, worker') = some version' →
      w.store.db.bundle (ns, worker', version') = some m' → ∀ c ∈ m.queueConsumers,
        ∀ c' ∈ m'.queueConsumers, c.queue = c'.queue → worker = worker' := by
  have hc := coherent_of_reachable h
  have hfind : ∀ worker version m, w.store.db.active worker = some version →
      w.store.db.bundle (worker.1, worker.2, version) = some m → ∀ c ∈ m.queueConsumers,
        (w.store.db.queueConsumers worker.1).lookup c.queue = some ⟨worker.2, version, c⟩ := by
    intro worker version m ha hm c hmem
    show w.store.db.consumerOf (worker.1, c.queue) = _
    refine hc.projected.queues.find (a := worker) (fun _ _ => owner_of_mem_queuesOf) ?_
    rw [queuesOf_eq (Db.activeBundle_eq ha hm)]
    exact mem_queueEntries.2 ⟨c, hmem, rfl, rfl⟩
  refine ⟨fun ns queue p hp => ?_, hfind, ?_⟩
  · have hmem := hc.projected.queue_iff (k := (ns, queue)).1 hp
    cases hactive : w.store.db.activeBundle (ns, p.worker) with
    | none =>
      rw [queuesOf_eq_nil hactive] at hmem
      cases hmem
    | some x =>
      obtain ⟨version, m⟩ := x
      obtain ⟨ha, hm⟩ := Db.activeBundle_eq_some_iff.1 hactive
      rw [queuesOf_eq hactive, mem_queueEntries] at hmem
      obtain ⟨c, hmem, hkey, hprojection⟩ := hmem
      have hversion : version = p.version := congrArg QueueProjection.version hprojection
      have hconsumer : c = p.consumer := congrArg QueueProjection.consumer hprojection
      subst hversion hconsumer
      exact ⟨ha, m, hm, hmem, (Prod.mk.inj hkey).2⟩
  · intro ns worker worker' version version' m m' ha hm ha' hm' c hmem c' hmem' hqueue
    -- the queue has one consumer, which names both workers
    have hown := hfind (ns, worker) version m ha hm c hmem
    have hown' := hfind (ns, worker') version' m' ha' hm' c' hmem'
    rw [hqueue, hown'] at hown
    exact (congrArg QueueProjection.worker (Option.some.inj hown)).symm

/-- A worker that consumes a queue. -/
def consumingRequest : DeployRequest :=
  { DeployRequest.plain with queueConsumers := [⟨"jobs", 10, 5000, 3, none, some "dead"⟩] }

/-- The worker is deployed and promoted, and another one that consumes the same queue is not. -/
theorem queue_consumers_owned_promoted : ∃ w, control.Reachable Initial w ∧
    w.store.db.active ("acme", "api") = some 1 ∧ w.store.db.active ("acme", "batch") = none ∧
    (w.store.db.queueConsumers "acme").lookup "jobs" =
      some ⟨"api", 1, ⟨"jobs", 10, 5000, 3, none, some "dead"⟩⟩ := by
  obtain ⟨w, hw, hdb, -⟩ :=
    exists_reachable_serves [.deploy ("acme", "api") consumingRequest ⟨"do1", id⟩,
    .promote ("acme", "api") 1, .deploy ("acme", "batch") consumingRequest ⟨"do2", id⟩,
    .promote ("acme", "batch") 1]
  have hconsumer : (w.store.db.queueConsumers "acme").lookup "jobs" =
      some ⟨"api", 1, ⟨"jobs", 10, 5000, 3, none, some "dead"⟩⟩ := by
    rw [hdb]
    decide +kernel
  have hother : w.store.db.active ("acme", "batch") = none := by
    rw [hdb]
    decide +kernel
  obtain ⟨hactive, -⟩ := (queue_consumers_owned hw).1 _ _ _ hconsumer
  exact ⟨w, hw, hactive, hother, hconsumer⟩

/-! ## Versions -/

/-- In a run what was issued stays issued, and what was removed stays away. -/
theorem later_of_steps {w w' : ControlWorld} (h : control.Reachable Initial w)
    (hs : control.StepsWhen (fun _ _ => True) w w') : Later w.store.db w'.store.db := by
  have hinit : ∀ s, Initial s → coherence.inv s.db := by
    intro s hs
    rw [show s.db = Db.empty from hs]
    exact .empty
  refine System.StepsWhen.store_rel (R := fun s t => Later s.db t.db) (fun s => .refl s.db)
    (fun _ _ _ => .trans) (fun u l u' hu _ hstep => ?_) hs
  have hreach := h.steps hu
  rcases coherence.change_of_step hinit hreach hstep with heq | ⟨i, hchange⟩ | ⟨e, heq⟩
  · rw [heq]
    exact .refl _
  · exact (hchange.undisturbed (Nat.succ_ne_self i).symm (coherent_of_reachable hreach)).later
  · rw [heq]
    exact (e.undisturbed (j := 0) _).later

/-- **Versions are written once.** What is stored under a version is all that is ever stored there,
    and once it is removed it does not come back. -/
theorem versions_written_once {w w' : ControlWorld} (h : control.Reachable Initial w)
    {v : VersionId} {m : Meta} (hm : w.store.db.bundle v = some m)
    (hs : control.StepsWhen (fun _ _ => True) w w') :
    (∀ m', w'.store.db.bundle v = some m' → m' = m) ∧
      (w'.store.db.bundle v = none → ∀ w'', control.StepsWhen (fun _ _ => True) w' w'' →
        w''.store.db.bundle v = none) := by
  have hissued := (later_of_steps h hs).issued v m
    ((coherent_of_reachable h).numbered.stored v m hm)
  refine ⟨fun m' hm' => ?_, fun hnone w'' hs' =>
    (later_of_steps (h.steps hs) hs').gone v m hissued hnone⟩
  have hstored := (coherent_of_reachable (h.steps hs)).numbered.stored v m' hm'
  exact Option.some.inj (hstored.symm.trans hissued)

/-- The first version of a worker is deployed and deleted. -/
theorem versions_written_once_deleted : ∃ w w', control.Reachable Initial w ∧
    w.store.db.bundle ("acme", "api", 1) ≠ none ∧ control.StepsWhen (fun _ _ => True) w w' ∧
    ∀ w'', control.StepsWhen (fun _ _ => True) w' w'' →
      w''.store.db.bundle ("acme", "api", 1) = none := by
  obtain ⟨w, hw, hdb, hfree⟩ :=
    exists_reachable_serves [.deploy ("acme", "api") .plain ⟨"do1", id⟩]
  have hstored : w.store.db.bundle ("acme", "api", 1) ≠ none := by
    rw [hdb]
    decide +kernel
  obtain ⟨m, hm⟩ := Option.ne_none_iff_exists'.1 hstored
  obtain ⟨t, hdb', -, hruns⟩ := Prog.alone_runs Command.answer_step
    (body 1 (.deleteVersion ("acme", "api") 1)) none w.store nofun
  obtain ⟨w', hs, rfl, -⟩ := exists_steps_start (hfree 1 le_rfl) hruns
  refine ⟨w, w', hw, hstored, hs, (versions_written_once hw hm hs).2 ?_⟩
  rw [hdb', hdb]
  decide +kernel

end Wdl.Control
