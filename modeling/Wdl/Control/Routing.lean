import Wdl.Control.Session
import Mathlib.Data.Finset.Sort
import Mathlib.Data.String.Basic

/-!
# Activating versions

`promoteWithRoutes` makes a stored version the active one of its worker, and
`bumpActiveAndPromote` does so with a copy of the active version under a new number. Both
bring every projection of the active bundle in line in one transaction: the slots of its
route patterns, the session policy, the schedules and the queues. `reconcileHosts` sets
the hosts that a namespace has declared.
-/

namespace Wdl.Control

open Function

/-- Whether `v<n>` is a version tag. -/
def validVersion (n : Version) : Bool := 1 ≤ n ∧ n ≤ maxSafeInteger

/-! ## Metadata of the bundle -/

def sessionPolicyModeFromMeta (m : Meta) : SessionMode :=
  (m.sessionPolicy <|> m.durableObjectRollout).getD .preserve

def assertRoutableWorkersDev (m : Meta) : SessionM Unit :=
  refuseIf (m.workersDev = false ∧ m.routes = []) (.refused 400 "workers_dev_requires_routes")

/-- The storage identifiers of the Durable Object bindings. -/
def doStorageIds (m : Meta) : List (Option String) :=
  m.bindings.filterMap fun
    | (_, .durableObject _ doStorageId) => some doStorageId
    | _ => none

/-- Every Durable Object binding has a storage identifier, and they are all the same. -/
def DoStorageIdCoherent (m : Meta) : Prop :=
  ∀ x ∈ doStorageIds m, x ≠ none ∧ ∀ y ∈ doStorageIds m, x = y

instance (m : Meta) : Decidable (DoStorageIdCoherent m) :=
  inferInstanceAs (Decidable (∀ x ∈ doStorageIds m, x ≠ none ∧ ∀ y ∈ doStorageIds m, x = y))

def assertDoStorageIdCoherent (m : Meta) : SessionM Unit :=
  refuseIf (¬ DoStorageIdCoherent m) (.refused 500 "corrupt_meta")

/-! ## Session policy -/

/-- What `isValidSessionPolicy` asks of a projection. -/
def SessionPolicyProjection.isValid (p : SessionPolicyProjection) : Bool :=
  validVersion p.version && p.restartSequence ≤ maxSafeInteger &&
    (p.mode ≠ .restart || p.restartSequence ≠ 0)

def corruptSessionPolicyProjection : Failure := .refused 500 "corrupt_session_policy_projection"

def corruptSessionPolicySequence : Failure := .refused 500 "corrupt_session_policy_sequence"

def parseSessionPolicySequence (raw : Option ℕ) : Except Failure ℕ :=
  let parsed := raw.getD 0
  if parsed ≤ maxSafeInteger then .ok parsed else .error corruptSessionPolicySequence

def parseSessionPolicyProjection (raw : Option SessionPolicyProjection) :
    Except Failure (Option SessionPolicyProjection) :=
  if raw.all (·.isValid) then .ok raw else .error corruptSessionPolicyProjection

def computeSessionPolicyPlan (currentVersion : Option Version) (newVersion : Version)
    (mode : SessionMode) (rawSequence : Option ℕ) (rawProjection : Option SessionPolicyProjection) :
    Except Failure SessionPolicyPlan := do
  let allocated ← parseSessionPolicySequence rawSequence
  let current ← parseSessionPolicyProjection rawProjection
  if current.any (fun c => some c.version ≠ currentVersion) then
    .error corruptSessionPolicyProjection
  else if current.any (fun c => c.restartSequence ≠ allocated) then
    .error corruptSessionPolicySequence
  else if mode = .restart ∧ current.any (fun c => c.version = newVersion ∧ c.mode = .restart) then
    -- the same version is already active in restart mode
    .ok ⟨mode, allocated, false⟩
  else
    let restartSequence := if mode = .restart then allocated + 1 else allocated
    if restartSequence ≤ maxSafeInteger then
      .ok ⟨mode, restartSequence, mode = .restart⟩
    else .error (.refused 500 "session_policy_sequence_exhausted")

/-! ## Schedules -/

/-- Numbers of generations below this one are not given out. -/
def cronGenerationEpoch : ℕ := 1024

def corruptCronSequence : Failure := .refused 500 "corrupt_cron_sequence"

def parseCronSequence (raw : Option ℕ) : Except Failure (Option ℕ) :=
  if raw.all (· ≤ maxSafeInteger) then .ok raw else .error corruptCronSequence

/-- The last generation that was given out, and whether it has yet to be stored. -/
def resolveCronSequence (cron : Option CronProjection) (rawSequence : Option ℕ) :
    Except Failure (ℕ × Bool) := do
  match ← parseCronSequence rawSequence with
  | some persisted =>
    if persisted < cronGenerationEpoch - 1 then .error corruptCronSequence
    else .ok (persisted, false)
  | none =>
    match cron with
    | none => .ok (cronGenerationEpoch - 1, true)
    | some c =>
      match c.seq with
      | none => .error corruptCronSequence
      | some seed =>
        if seed ≤ maxSafeInteger then .ok (max seed (cronGenerationEpoch - 1), true)
        else .error (.refused 500 "corrupt_cron_meta")

/-- Without schedules, a stored sequence must still be one that was given out. -/
def assertCronSequence (rawSequence : Option ℕ) : Except Failure Unit := do
  match ← parseCronSequence rawSequence with
  | some persisted =>
    if persisted < cronGenerationEpoch - 1 then .error corruptCronSequence else .ok ()
  | none => .ok ()

/-- Give the next generations to the new schedules. -/
def placeCrons : List CronSpec → ℕ → Except Failure (List (CronSpec × ℕ))
  | [], _ => .ok []
  | c :: crons, seq => do
    if seq ≥ maxSafeInteger then .error (.refused 500 "cron_sequence_exhausted")
    let placed ← placeCrons crons (seq + 1)
    .ok ((c, seq + 1) :: placed)

def computeCronPlan (cron : Option CronProjection) (rawSequence : Option ℕ)
    (newCrons : List CronSpec) : Except Failure CronPlan := do
  let old := (cron.map (·.entries)).getD []
  if cron = none ∧ newCrons = [] then
    assertCronSequence rawSequence
    .ok ⟨0, false, [], []⟩
  else
    let (seq, persist) ← resolveCronSequence cron rawSequence
    let fresh := newCrons.eraseDups.filter fun c => c ∉ old.map Prod.fst
    let added ← placeCrons fresh seq
    .ok ⟨seq + fresh.length, persist || fresh ≠ [], added,
      (old.map Prod.fst).filter fun c => c ∉ newCrons⟩

/-! ## Reads and checks of an activation -/

/-- A route that has moved since it was read makes the session start again. -/
def retryIfRouteChanged (w : WorkerId) (version : Version) : SessionM Unit := do
  let routes ← read (.routes w.1)
  refuseIf (routes.lookup w.2 ≠ some version) .watchError

def readMeta (w : WorkerId) : Option Version → SessionM (Option Meta)
  | none => pure none
  | some version => do
    match ← read (.bundle (w.1, w.2, version)) with
    | some m => pure (some m)
    | none => do
      retryIfRouteChanged w version
      .fail (.refused 500 "corrupt_meta")

/-- What the bundle refers to is watched and exists. -/
def assertBundleDependenciesPresent (ns : Ns) (d1Refs : List D1Ref)
    (outgoingRefs : List OutgoingRef) : SessionM Unit := do
  watch (d1Refs.map (fun ref => .database ns ref.databaseId) ++
    outgoingRefs.map (fun ref => .bundle ref.target))
  let _ ← Prog.forEach d1Refs fun ref => do
    let database ← read (.database ns ref.databaseId)
    refuseIf (database = none) (.refused 409 "d1_database_dependency_missing")
  let _ ← Prog.forEach outgoingRefs fun ref => do
    let target ← read (.bundle ref.target)
    refuseIf (target = none) (.refused 409 "service_binding_dependency_missing")

/-- No queue that the new version consumes has another consumer. -/
def assertQueueConsumerOwnership (w : WorkerId)
    (oldQueueConsumers newQueueConsumers : List QueueConsumer) : SessionM Unit := do
  watch ((oldQueueConsumers ++ newQueueConsumers).map fun c => .queueConsumer w.1 c.queue)
  let _ ← Prog.forEach newQueueConsumers fun c => do
    let held ← read (.queueConsumer w.1 c.queue)
    refuseIf (held.any fun p => p.worker ≠ w.2) (.refused 409 "queue_consumer_conflict")

def assertDeclaredHosts (ns : Ns) (newRoutes : List RoutePattern) : SessionM Unit := do
  let hosts ← read (.hosts ns)
  refuseIf (∃ r ∈ newRoutes, r.host ∉ hosts) (.refused 403 "host_not_declared")

/-- The slots of each affected host. -/
abbrev HostState := List (Host × Hash Slot PatternProjection)

/-- The slots of a host that was read. -/
def HostState.at (state : HostState) (host : Host) : Hash Slot PatternProjection :=
  (state.lookup host).getD ∅

theorem HostState.at_map {hosts : List Host} {host : Host} (h : host ∈ hosts)
    (f : Host → Hash Slot PatternProjection) :
    HostState.at (hosts.map fun host => (host, f host)) host = f host := by
  induction hosts with
  | nil => simp at h
  | cons a hosts ih =>
    rw [HostState.at, List.map_cons, List.lookup_cons]
    by_cases ha : host = a
    · simp [ha]
    · rw [beq_false_of_ne ha]
      exact ih ((List.mem_cons.1 h).resolve_left ha)

/-- A host of the new routes has no slot of another namespace, and their slots are free or
    belong to the worker. -/
def readHostStateAndAssertRouteConflicts (w : WorkerId) (newRoutes : List RoutePattern)
    (affectedHosts : List Host) : SessionM HostState := do
  let state ← Prog.forEach affectedHosts fun host => do
    let slots ← read (.patterns host)
    pure (host, slots)
  refuseIf (∃ r ∈ newRoutes, (HostState.at state r.host).Any (fun _ held => held.ns ≠ w.1) ∨
      ((HostState.at state r.host).lookup r.slot).any (fun held => (held.ns, held.worker) ≠ w))
    (.refused 409 "route_conflict")
  pure state

/-- The workers of a namespace with their active versions, in some order. -/
def routeEntries (routes : Hash Worker Version) : List (Worker × Version) :=
  (routes.keys.sort (· ≤ ·)).filterMap fun worker => (routes.lookup worker).map (worker, ·)

/-- No other worker of the platform's namespaces has an export of the same name. -/
def assertPlatformAsAvailable (w : WorkerId) (newExports : List ExportEntry) : SessionM Unit := do
  if w.1 ∈ platformTierReservedNs ∧ ∃ e ∈ newExports, e.asAlias ≠ none then
    watch ((platformTierReservedNs.filter (· ≠ w.1)).map .routes)
    let _ ← Prog.forEach platformTierReservedNs fun otherNs => do
      let active ← read (.routes otherNs)
      let _ ← Prog.forEach ((routeEntries active).filter fun e => (otherNs, e.1) ≠ w) fun e => do
        match ← read (.bundle (otherNs, e.1, e.2)) with
        | none => do
          retryIfRouteChanged (otherNs, e.1) e.2
          .fail (.refused 500 "corrupt_meta")
        | some other =>
          refuseIf (∃ x ∈ newExports, x.asAlias ≠ none ∧ ∃ y ∈ other.exports, y.asAlias = x.asAlias)
            (.refused 409 "platform_as_conflict")

/-! ## Promoting a version -/

/-- Whether the namespace still has a slot on the host after the old routes are replaced by
    the new ones. -/
def OwnsHost (ns : Ns) (oldRoutes newRoutes : List RoutePattern)
    (slots : Hash Slot PatternProjection) (host : Host) : Prop :=
  (∃ r ∈ newRoutes, r.host = host) ∨ slots.Any fun slot held =>
    held.ns = ns ∧ ¬ ((host, slot) ∈ oldRoutes.map routeKey ∧ (host, slot) ∉ newRoutes.map routeKey)

instance (ns : Ns) (oldRoutes newRoutes : List RoutePattern) (slots : Hash Slot PatternProjection)
    (host : Host) : Decidable (OwnsHost ns oldRoutes newRoutes slots host) :=
  inferInstanceAs (Decidable (_ ∨ _))

/-- What `promoteWithRoutes` has read when it stages its writes. -/
structure PromoteInputs where
  newVersion : Version
  newMeta : Meta
  oldMeta : Option Meta
  affectedHosts : List Host
  hostState : HostState
  cronPlan : CronPlan
  sessionPolicyPlan : SessionPolicyPlan

/-- The route patterns of the version that was active. -/
def PromoteInputs.oldRoutes (p : PromoteInputs) : List RoutePattern :=
  (p.oldMeta.map (·.routes)).getD []

/-- The queues of the version that was active. -/
def PromoteInputs.oldQueueConsumers (p : PromoteInputs) : List QueueConsumer :=
  (p.oldMeta.map (·.queueConsumers)).getD []

/-- The affected hosts on which the namespace has a slot afterwards. -/
def PromoteInputs.nsHostsAdd (p : PromoteInputs) (ns : Ns) : Finset Host :=
  (p.affectedHosts.filter fun host =>
    OwnsHost ns p.oldRoutes p.newMeta.routes (p.hostState.at host) host).toFinset

/-- The affected hosts on which it has none. -/
def PromoteInputs.nsHostsRem (p : PromoteInputs) (ns : Ns) : Finset Host :=
  (p.affectedHosts.filter fun host =>
    ¬ OwnsHost ns p.oldRoutes p.newMeta.routes (p.hostState.at host) host).toFinset

def stagePromoteWithRoutes (w : WorkerId) (p : PromoteInputs) (db : Db) : Db :=
  let db := stageSlotRemovals
    (p.oldRoutes.filter fun r => routeKey r ∉ p.newMeta.routes.map routeKey) db
  let db := stageVersionFlip w p.newVersion p.newMeta.routes p.newMeta.workersDev db
  let db := stageSessionPolicy w p.newVersion p.sessionPolicyPlan db
  let db := stageNamespace w.1 db
  let db := stageNsHosts w.1 (p.nsHostsAdd w.1) (p.nsHostsRem w.1) db
  let db := stageD1ReferrerAdds (w.1, w.2, p.newVersion) (extractD1Refs p.newMeta.bindings) db
  let db := stageCronProjection w p.newVersion p.newMeta.crons p.cronPlan db
  let db := stageQueueConsumerProjections w p.newVersion p.newMeta.queueConsumers db
  stageQueueConsumerRemovals w.1
    ((p.oldQueueConsumers.map (·.queue)).filter
      fun q => q ∉ p.newMeta.queueConsumers.map (·.queue)) db

/-- The database after a promotion, with the schedules of `d`. -/
def Db.afterPromote (db : Db) (w : WorkerId) (p : PromoteInputs) (d : Db) : Db := { db with
  patterns := Directory.putAll (Directory.dropAll db.patterns
    ((p.oldRoutes.filter fun r => routeKey r ∉ p.newMeta.routes.map routeKey).map routeKey))
    (p.newMeta.routes.map fun r => (routeKey r, r.projection w p.newVersion))
  routes := update db.routes w.1 ((db.routes w.1).insert w.2 p.newVersion)
  platformDomainDisabled := update db.platformDomainDisabled w.1
    (if p.newMeta.workersDev then (db.platformDomainDisabled w.1).erase w.2
      else insert w.2 (db.platformDomainDisabled w.1))
  log := .activated w p.newVersion :: db.log
  sessionPolicySequence := if p.sessionPolicyPlan.persistSequence then
      update db.sessionPolicySequence w (some p.sessionPolicyPlan.restartSequence)
    else db.sessionPolicySequence
  sessionPolicy := update db.sessionPolicy w
    (some ⟨p.newVersion, p.sessionPolicyPlan.mode, p.sessionPolicyPlan.restartSequence⟩)
  namespaces := insert w.1 db.namespaces
  nsHosts := update db.nsHosts w.1
    ((db.nsHosts w.1 ∪ p.nsHostsAdd w.1) \ p.nsHostsRem w.1)
  databaseReferrers := Index.insertAll db.databaseReferrers
    (d1Entries (w.1, w.2, p.newVersion) (extractD1Refs p.newMeta.bindings))
  queueConsumers := Directory.dropAll (Directory.putAll db.queueConsumers
    (p.newMeta.queueConsumers.map fun c => ((w.1, c.queue), ⟨w.2, p.newVersion, c⟩)))
    (((p.oldQueueConsumers.map (·.queue)).filter
      fun q => q ∉ p.newMeta.queueConsumers.map (·.queue)).map fun q => (w.1, q))
  cron := d.cron
  cronSequence := d.cronSequence }

/-- The checks of the candidate, and the writes that make it the active version. -/
def promoteCandidate (w : WorkerId) (newVersion : Version) (m : Meta)
    (currentVersion : Option Version) (rawSequence : Option ℕ)
    (rawProjection : Option SessionPolicyProjection) : SessionM (Verdict Db Reply) := do
  assertRoutableWorkersDev m
  assertDoStorageIdCoherent m
  refuseIf (isReservedNs w.1 ∧ w.1 ∉ routesAllowedReservedNs ∧ m.routes ≠ [])
    (.refused 400 "reserved_namespace_routes")
  assertBundleDependenciesPresent w.1 (extractD1Refs m.bindings)
    (extractOutgoingRefs m.bindings w.1)
  let oldMeta ← readMeta w currentVersion
  let oldRoutes := (oldMeta.map (·.routes)).getD []
  assertQueueConsumerOwnership w ((oldMeta.map (·.queueConsumers)).getD []) m.queueConsumers
  let affectedHosts := ((oldRoutes ++ m.routes).map (·.host)).eraseDups
  watch (affectedHosts.map .patterns)
  assertDeclaredHosts w.1 m.routes
  let hostState ← readHostStateAndAssertRouteConflicts w m.routes affectedHosts
  assertPlatformAsAvailable w m.exports
  let cron ← read (.cron w)
  let rawCronSequence ← read (.cronSequence w)
  let cronPlan ← ofExcept (computeCronPlan cron rawCronSequence m.crons)
  let plan ← ofExcept (computeSessionPolicyPlan currentVersion newVersion
    (sessionPolicyModeFromMeta m) rawSequence rawProjection)
  pure (.commit
    (stagePromoteWithRoutes w ⟨newVersion, m, oldMeta, affectedHosts, hostState, cronPlan, plan⟩)
    (.activated newVersion plan.mode plan.restartSequence))

def promoteSession (w : WorkerId) (newVersion : Version) : SessionM (Verdict Db Reply) := do
  watch [.routes w.1, .hosts w.1, .cron w, .cronSequence w, .sessionPolicy w,
    .sessionPolicySequence w, .deleteLock w, .bundle (w.1, w.2, newVersion)]
  let callerLock ← read (.deleteLock w)
  let rawSequence ← read (.sessionPolicySequence w)
  let rawProjection ← read (.sessionPolicy w)
  let candidate ← read (.bundle (w.1, w.2, newVersion))
  let routes ← read (.routes w.1)
  refuseIf (callerLock ≠ none) (.refused 409 "deleting")
  match candidate with
  | none => .fail (.refused 404 "version_not_found")
  | some m => promoteCandidate w newVersion m (routes.lookup w.2) rawSequence rawProjection

def promoteWithRoutes (i : ℕ) (w : WorkerId) (newVersion : Version) : ControlM Reply :=
  if validVersion newVersion then
    optimistic i (.refused 503 "promote_contention") (promoteSession w newVersion)
  else .fail (.refused 400 "invalid_request")

/-! ## Bumping the active version -/

/-- What `bumpActiveAndPromote` has read when it stages its writes. -/
structure BumpInputs where
  currentVersion : Version
  newVersion : Version
  srcMeta : Meta
  sessionPolicyPlan : SessionPolicyPlan
  /-- The last generation of the schedules, and whether it has yet to be stored, if there
      are any. -/
  cronSequence : Option (ℕ × Bool)

def stageBumpCron (w : WorkerId) (newVersion : Version) : Option (ℕ × Bool) → Db → Db
  | none, db => db
  | some (seq, persist), db =>
    stageCronProjectionMeta w newVersion (if persist then stageCronSequence w seq db else db)

def stageBump (w : WorkerId) (p : BumpInputs) (db : Db) : Db :=
  let new : VersionId := (w.1, w.2, p.newVersion)
  let db := stageBundleCopy (w.1, w.2, p.currentVersion) new db
  let db := stageVersionFlip w p.newVersion p.srcMeta.routes p.srcMeta.workersDev db
  let db := stageSessionPolicy w p.newVersion p.sessionPolicyPlan db
  let db := stageNamespace w.1 db
  let db := stageWorkerVersionIndexUpsert w p.newVersion db
  let db := stageOutgoingReferrerAdds new (extractOutgoingRefs p.srcMeta.bindings w.1) db
  let db := stageD1ReferrerAdds new (extractD1Refs p.srcMeta.bindings) db
  let db := stageBumpCron w p.newVersion p.cronSequence db
  stageQueueConsumerProjections w p.newVersion p.srcMeta.queueConsumers db

/-- The schedules are carried over to the new version. -/
def bumpCronSequence (cron : Option CronProjection) (rawSequence : Option ℕ) :
    Except Failure (Option (ℕ × Bool)) :=
  match cron with
  | some c => (resolveCronSequence (some c) rawSequence).map some
  | none => (assertCronSequence rawSequence).map fun _ => none

/-- The checks of the active bundle, and the writes that activate its copy. `before` stages
    more writes, before the bundle is copied. -/
def bumpActive (w : WorkerId) (currentVersion newVersion : Version) (m : Meta)
    (rawSequence : Option ℕ) (rawProjection : Option SessionPolicyProjection)
    (before : SessionM (Db → Db)) : SessionM (Verdict Db Reply) := do
  assertRoutableWorkersDev m
  assertDoStorageIdCoherent m
  let plan ← ofExcept (computeSessionPolicyPlan (some currentVersion) newVersion
    (sessionPolicyModeFromMeta m) rawSequence rawProjection)
  assertDeclaredHosts w.1 m.routes
  assertBundleDependenciesPresent w.1 (extractD1Refs m.bindings)
    (extractOutgoingRefs m.bindings w.1)
  watch ((m.routes.map (·.host)).eraseDups.map .patterns)
  watch [.cron w, .cronSequence w]
  let cron ← read (.cron w)
  let rawCronSequence ← read (.cronSequence w)
  let cronSequence ← ofExcept (bumpCronSequence cron rawCronSequence)
  watch (m.queueConsumers.map fun c => .queueConsumer w.1 c.queue)
  let staged ← before
  pure (.commit
    (fun db => stageBump w ⟨currentVersion, newVersion, m, plan, cronSequence⟩ (staged db))
    (.activated newVersion plan.mode plan.restartSequence))

def activeVersionNotFound : Failure := .refused 404 "active_version_not_found"

def bumpSession (w : WorkerId) (newVersion : Version) (before : Version → SessionM (Db → Db)) :
    SessionM (Verdict Db Reply) := do
  watch [.routes w.1, .hosts w.1, .sessionPolicy w, .sessionPolicySequence w, .deleteLock w]
  let callerLock ← read (.deleteLock w)
  let rawSequence ← read (.sessionPolicySequence w)
  let rawProjection ← read (.sessionPolicy w)
  let routes ← read (.routes w.1)
  refuseIf (callerLock ≠ none) (.refused 409 "caller_deleting")
  match routes.lookup w.2 with
  | none => .fail activeVersionNotFound
  | some currentVersion => do
    watch [.bundle (w.1, w.2, currentVersion), .bundle (w.1, w.2, newVersion)]
    match ← read (.bundle (w.1, w.2, currentVersion)) with
    | none => do
      retryIfRouteChanged w currentVersion
      .fail (.refused 500 "bundle_copy_failed")
    | some m =>
      bumpActive w currentVersion newVersion m rawSequence rawProjection (before currentVersion)

def bumpActiveAndPromote (i : ℕ) (w : WorkerId) (before : Version → SessionM (Db → Db)) :
    ControlM Reply := do
  let routes ← readPlain (.routes w.1)
  match routes.lookup w.2 with
  | none => .fail activeVersionNotFound
  | some _ => do
    let newVersion ← incrNextVersion i w
    if validVersion newVersion then
      optimistic i (.refused 503 "bump_contention") (bumpSession w newVersion before)
    else .fail (.refused 500 "invalid_version_number")

/-! ## Declared hosts -/

/-- What becomes of the declarations of a host when a namespace withdraws its own. -/
def stageDeclaredHostRemoval (ns : Ns) (host : Host) (declaredNs : Finset Ns) (db : Db) : Db :=
  { db with
    hostDeclarations := update db.hostDeclarations host
      (if declaredNs.erase ns = ∅ then ∅ else (db.hostDeclarations host).erase ns)
    declaredHosts :=
      if declaredNs.erase ns = ∅ then db.declaredHosts.erase host else db.declaredHosts }

def stageDeclaredHostChanges (ns : Ns) (toAdd : Finset Host) (removals : List (Host × Finset Ns))
    (db : Db) : Db :=
  let db : Db := { db with
    hosts := update db.hosts ns ((db.hosts ns ∪ toAdd) \ (removals.map Prod.fst).toFinset)
    hostDeclarations := fun host =>
      if host ∈ toAdd then insert ns (db.hostDeclarations host) else db.hostDeclarations host
    declaredHosts := db.declaredHosts ∪ toAdd }
  removals.foldl (fun db r => stageDeclaredHostRemoval ns r.1 r.2 db) db

def reconcileSession (ns : Ns) (body : Finset Host) : SessionM (Verdict Db Reply) := do
  watch [.hosts ns]
  let current ← read (.hosts ns)
  let toAdd := body \ current
  let toRemove := (current \ body).sort (· ≤ ·)
  if toAdd = ∅ ∧ toRemove = [] then pure (.leave .done)
  else
    watch (toRemove.map .patterns)
    watch (toRemove.map .hostDeclarations)
    let nsHosts ← read (.nsHosts ns)
    let _ ← Prog.forEach (toRemove.filter (· ∈ nsHosts)) fun host => do
      let slots ← read (.patterns host)
      refuseIf (slots.Any fun _ held => held.ns = ns) (.refused 409 "host_in_use")
    let removals ← Prog.forEach toRemove fun host => do
      let declaredNs ← read (.hostDeclarations host)
      pure (host, declaredNs)
    pure (.commit (stageDeclaredHostChanges ns toAdd removals) .done)

def reconcileHosts (i : ℕ) (ns : Ns) (body : Finset Host) : ControlM Reply :=
  optimistic i (.refused 503 "hosts_reconcile_contention") (reconcileSession ns body)

end Wdl.Control
