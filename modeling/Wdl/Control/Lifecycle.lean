import Wdl.Control.Routing

/-!
# Secrets and deletion

The secret of a worker is changed together with a bump of its active version, so that the
new value takes effect; without an active version it is just stored. Deleting a version
or a whole worker first takes the delete lock of the worker, which keeps every other change
of it out, and then removes everything in one transaction.
-/

namespace Wdl.Control

open Function

/-! ## Worker secrets -/

/-- What is done to a secret. -/
inductive SecretMutation
  | put (value : String)
  | delete
  deriving DecidableEq, Repr

def stageWorkerSecretMutation (w : WorkerId) (key : String) (mutation : SecretMutation)
    (active removeFromWorkersIndex : Bool) (db : Db) : Db :=
  match mutation with
  | .put value => stageWorkerVisible w { db with
      workerSecrets := update db.workerSecrets w ((db.workerSecrets w).insert key value) }
  | .delete =>
    let db : Db := { db with
      workerSecrets := update db.workerSecrets w ((db.workerSecrets w).erase key) }
    if ¬ active ∧ removeFromWorkersIndex then stageWorkerHidden w db else db

def stageWorkerSecretForBump (w : WorkerId) (key : String) (mutation : SecretMutation) :
    SessionM (Db → Db) := do
  watch [.nsSecrets w.1, .workerSecrets w, .workerVersions w]
  let workerEncrypted ← read (.workerSecrets w)
  refuseIf (mutation = .delete ∧ key ∉ workerEncrypted) .noop
  pure (stageWorkerSecretMutation w key mutation true false)

/-- What `mutateSecretWithoutActive` finds. -/
inductive PreDeploy
  | activePresent
  | notMutated
  | mutated
  deriving DecidableEq, Repr

def mutateSecretSession (w : WorkerId) (key : String) (mutation : SecretMutation) :
    SessionM (Verdict Db PreDeploy) := do
  watch ([.deleteLock w, .nsSecrets w.1, .workerSecrets w, .routes w.1, .workerVersions w] ++
    if mutation = .delete then [.workflowDefs w] else [])
  let callerLock ← read (.deleteLock w)
  refuseIf (callerLock ≠ none) (.refused 409 "deleting")
  let routes ← read (.routes w.1)
  if routes.lookup w.2 ≠ none then pure (.leave .activePresent)
  else
    let retainedVersions ← read (.workerVersions w)
    let secrets ← read (.workerSecrets w)
    if mutation = .delete ∧ key ∉ secrets then pure (.leave .notMutated)
    else
      let defs ← read (.workflowDefs w)
      let last := mutation = .delete ∧ secrets.keys = {key} ∧ retainedVersions = ∅ ∧ defs = ∅
      pure (.commit (stageWorkerSecretMutation w key mutation false last) .mutated)

def mutateSecretWithoutActive (i : ℕ) (w : WorkerId) (key : String) (mutation : SecretMutation) :
    ControlM PreDeploy :=
  optimistic i (.refused 503 "secret_mutation_contention") (mutateSecretSession w key mutation)

/-- Bump the active version with the changed secret; without an active version, only change
    the secret; and start again when one has appeared meanwhile. -/
def mutateSecretLoop (i : ℕ) (w : WorkerId) (key : String) (mutation : SecretMutation) :
    ℕ → ControlM Reply
  | 0 => .fail (.refused 503 "secret_mutation_contention")
  | n + 1 => do
    let bumped ← (bumpActiveAndPromote i w fun _ => stageWorkerSecretForBump w key mutation).attempt
    match bumped with
    | .ok reply => pure reply
    | .error .noop => pure .unchanged
    | .error (.refused 404 _) => do
      match ← mutateSecretWithoutActive i w key mutation with
      | .activePresent => mutateSecretLoop i w key mutation n
      | .notMutated => pure .unchanged
      | .mutated => pure .done
    | .error e => .fail e

def mutateSecret (i : ℕ) (w : WorkerId) (key : String) (mutation : SecretMutation) :
    ControlM Reply := do
  if mutation = .delete then
    let callerLock ← readPlain (.deleteLock w)
    if callerLock ≠ none then .fail (.refused 409 "deleting")
    else
      let secrets ← readPlain (.workerSecrets w)
      if key ∉ secrets then pure .unchanged else mutateSecretLoop i w key mutation maxAttempts
  else mutateSecretLoop i w key mutation maxAttempts

/-! ## Deleting a version -/

/-- Remove a bundle with its entry in the version index and all its references. -/
def stageVersionDelete (w : WorkerId) (version : Version) (m : Meta) (db : Db) : Db :=
  let v : VersionId := (w.1, w.2, version)
  let db := stageBundleDelete v db
  let db := stageWorkerVersionIndexRemove w version db
  let db : Db := { db with referrers := update db.referrers v ∅ }
  let db := stageOutgoingReferrerRemovals v (extractOutgoingRefs m.bindings w.1) db
  stageD1ReferrerRemovals v (extractD1Refs m.bindings) db

/-- Remove several bundles. -/
def stageVersionDeletes (w : WorkerId) (metas : List (Version × Meta)) (db : Db) : Db :=
  metas.foldl (fun db x => stageVersionDelete w x.1 x.2 db) db

/-- Only four families of keys are concerned. -/
theorem stageVersionDeletes_eq {w : WorkerId} {metas : List (Version × Meta)} {db d : Db}
    (h : stageVersionDeletes w metas db = d) : d = { db with
      bundle := d.bundle
      workerVersions := d.workerVersions
      referrers := d.referrers
      databaseReferrers := d.databaseReferrers } := by
  induction metas generalizing db with
  | nil => rw [← h]; rfl
  | cons x metas ih => exact @ih (stageVersionDelete w x.1 x.2 db) h

/-- Remove a bundle; with the last one, the version index goes, and the worker itself when
    nothing else of it is left. -/
def stageRetainedVersionDelete (w : WorkerId) (version : Version) (m : Meta)
    (lastRetainedNoActive nothingLeft : Bool) (db : Db) : Db :=
  let db := stageVersionDelete w version m db
  if lastRetainedNoActive then
    let db := stageWorkerVersionIndexDelete w db
    if nothingLeft then stageWorkerHidden w db else db
  else db

def versionDeleteSession (w : WorkerId) (version : Version) (token : LockToken) :
    SessionM (Verdict Db Reply) := do
  let v : VersionId := (w.1, w.2, version)
  watch [.deleteLock w, .routes w.1, .workerVersions w, .workerSecrets w,
    .workflowDefs w, .bundle v, .referrers v]
  let lock ← read (.deleteLock w)
  refuseIf (lock ≠ some token) (.refused 409 "deleting")
  let routes ← read (.routes w.1)
  let currentActive := routes.lookup w.2
  refuseIf (currentActive = some version) (.refused 409 "active_version")
  let currentVersions ← read (.workerVersions w)
  refuseIf (version ∉ currentVersions) (.refused 404 "version_not_found")
  refuseIf (currentActive.any fun active => active ∉ currentVersions)
    (.refused 409 "projection_drift")
  match ← read (.bundle v) with
  | none => .fail (.refused 500 "corrupt_meta")
  | some m => do
    let referrerMembers ← read (.referrers v)
    refuseIf (referrerMembers ≠ ∅) (.refused 409 "version_referenced")
    let secrets ← read (.workerSecrets w)
    let defs ← read (.workflowDefs w)
    let lastRetainedNoActive := currentVersions = {version} ∧ currentActive = none
    pure (.commit
      (stageRetainedVersionDelete w version m lastRetainedNoActive (secrets = ∅ ∧ defs = ∅)) .done)

/-- Do something with the delete lock, and give it back in the end. -/
def withDeleteLock {α : Type} (w : WorkerId) (token : LockToken) (p : ControlM α) : ControlM α := do
  if ← acquireDeleteLock w token then
    let outcome ← (p.attempt : ControlM (Except Failure α))
    releaseDeleteLock w token
    match outcome with
    | .ok a => pure a
    | .error e => .fail e
  else .fail (.refused 409 "deleting")

/-- Make sure that the delete lock is still ours, and will be for a while. -/
def requireDeleteLock (w : WorkerId) (token : LockToken) : ControlM Unit := do
  if ← renewDeleteLock w token then pure () else .fail (.refused 409 "deleting")

def deleteVersion (i : ℕ) (w : WorkerId) (version : Version) : ControlM Reply :=
  if validVersion version then
    let token : LockToken := ⟨.version, i⟩
    withDeleteLock w token do
      requireDeleteLock w token
      optimistic i (.refused 503 "version_delete_contention") (versionDeleteSession w version token)
  else .fail (.refused 400 "invalid_version")

/-! ## Deleting a worker -/

/-- What is collected before a worker is deleted. -/
structure DeleteInputs where
  queues : Finset String
  doStorageId : Option String
  retainedVersions : Finset Version
  /-- The metadata of the retained versions. -/
  metas : List (Version × Meta)
  /-- Whether a retained version is referred to. -/
  referenced : Bool
  activeVersion : Option Version
  activeRoutes : List RoutePattern
  hasWorkerSecrets : Bool
  hasWorkflowDefs : Bool

/-- The hosts of the active routes. -/
def DeleteInputs.affectedHosts (c : DeleteInputs) : List Host :=
  (c.activeRoutes.map (·.host)).eraseDups

/-- Whether there is anything of the worker to delete. -/
def DeleteInputs.HasWorkerLifecycle (c : DeleteInputs) : Prop :=
  c.activeVersion ≠ none ∨ c.retainedVersions ≠ ∅ ∨ c.hasWorkerSecrets ∨ c.hasWorkflowDefs

instance (c : DeleteInputs) : Decidable c.HasWorkerLifecycle :=
  inferInstanceAs (Decidable (_ ∨ _))

/-- The queues of the namespace that the worker consumes. -/
def scanQueueConsumerKeysForWorker (w : WorkerId) : SessionM (Finset String) := do
  let keys ← scanQueueConsumers w.1
  let held ← Prog.forEach (keys.filterMap fun
      | .queueConsumer ns queue => if ns = w.1 then some queue else none
      | _ => none) fun queue => do
    let projection ← read (.queueConsumer w.1 queue)
    pure (queue, projection)
  pure ((held.filter fun x => x.2.any fun p => p.worker = w.2).map Prod.fst).toFinset

/-- The metadata of a retained version, and whether it is referred to. -/
def collectVersion (w : WorkerId) (version : Version) : SessionM (Version × Meta × Bool) := do
  let candidate ← read (.bundle (w.1, w.2, version))
  let referrers ← read (.referrers (w.1, w.2, version))
  match candidate with
  | some m => pure (version, m, referrers ≠ ∅)
  | none => do
    let currentVersions ← read (.workerVersions w)
    refuseIf (version ∉ currentVersions) .drift
    .fail (.refused 500 "corrupt_meta")

/-- The route patterns of the active version. -/
def collectActiveRoutes (w : WorkerId) (metas : List (Version × Meta)) :
    Option Version → SessionM (List RoutePattern)
  | none => pure []
  | some active =>
    match metas.lookup active with
    | some m => pure m.routes
    | none => do
      match ← read (.bundle (w.1, w.2, active)) with
      | some m => pure m.routes
      | none => do
        let routes ← read (.routes w.1)
        refuseIf (routes.lookup w.2 ≠ some active) .drift
        .fail (.refused 500 "corrupt_meta")

def collectDeleteInputs (w : WorkerId) : SessionM DeleteInputs := do
  let doStorageId ← read (.doStorageId w)
  let queues ← scanQueueConsumerKeysForWorker w
  let retainedVersions ← read (.workerVersions w)
  let collected ← Prog.forEach (retainedVersions.sort (· ≤ ·)) (collectVersion w)
  let metas := collected.map fun x => (x.1, x.2.1)
  let routes ← read (.routes w.1)
  let activeVersion := routes.lookup w.2
  let activeRoutes ← collectActiveRoutes w metas activeVersion
  let secrets ← read (.workerSecrets w)
  let defs ← read (.workflowDefs w)
  pure ⟨queues, doStorageId, retainedVersions, metas, collected.any (·.2.2), activeVersion,
    activeRoutes, secrets ≠ ∅, defs ≠ ∅⟩

/-- The hosts on which only slots of the worker belong to the namespace. -/
def findHostsLosingNsOwnership (ns : Ns) (activeRoutes : List RoutePattern) (state : HostState) :
    Finset Host :=
  ((state.filter fun x => ¬ x.2.Any fun slot held =>
    (∀ r ∈ activeRoutes, routeKey r ≠ (x.1, slot)) ∧ held.ns = ns).map Prod.fst).toFinset

def stageWorkerDelete (w : WorkerId) (c : DeleteInputs) (hostsLosingNsOwnership : Finset Host)
    (namespaceStillActive : Bool) (db : Db) : Db :=
  let db := stageSlotRemovals c.activeRoutes db
  let db : Db := { db with
    routes := if c.activeVersion = none then db.routes
      else update db.routes w.1 ((db.routes w.1).erase w.2)
    platformDomainDisabled := update db.platformDomainDisabled w.1
      ((db.platformDomainDisabled w.1).erase w.2)
    namespaces := if namespaceStillActive then db.namespaces else db.namespaces.erase w.1
    cron := update db.cron w none
    workerSecrets := if c.hasWorkerSecrets then update db.workerSecrets w ∅
      else db.workerSecrets
    workflowDefs := update db.workflowDefs w ∅
    sessionPolicy := update db.sessionPolicy w none
    doStorageId := if c.doStorageId = none then db.doStorageId
      else update db.doStorageId w none
    log := .deleted w :: db.log }
  let db := stageNsHosts w.1 ∅ hostsLosingNsOwnership db
  let db := stageQueueConsumerRemovals w.1 (c.queues.sort (· ≤ ·)) db
  let db := stageVersionDeletes w c.metas db
  stageWorkerHidden w db

/-- The database after a worker was deleted, with the bundles and indexes of `d`. -/
def Db.afterWorkerDelete (db : Db) (w : WorkerId) (c : DeleteInputs) (losing : Finset Host)
    (stillActive : Bool) (d : Db) : Db := { db with
  bundle := d.bundle
  workerVersions := d.workerVersions
  referrers := d.referrers
  databaseReferrers := d.databaseReferrers
  patterns := Directory.dropAll db.patterns (c.activeRoutes.map routeKey)
  routes := update db.routes w.1 ((db.routes w.1).erase w.2)
  platformDomainDisabled := update db.platformDomainDisabled w.1
    ((db.platformDomainDisabled w.1).erase w.2)
  namespaces := if stillActive then db.namespaces else db.namespaces.erase w.1
  cron := update db.cron w none
  workerSecrets := update db.workerSecrets w ∅
  workflowDefs := update db.workflowDefs w ∅
  sessionPolicy := update db.sessionPolicy w none
  doStorageId := if c.doStorageId = none then db.doStorageId
    else update db.doStorageId w none
  log := .deleted w :: db.log
  nsHosts := update db.nsHosts w.1 (db.nsHosts w.1 \ losing)
  queueConsumers := Directory.dropAll db.queueConsumers
    ((c.queues.sort (· ≤ ·)).map fun q => (w.1, q))
  workersIndex := update db.workersIndex w.1 ((db.workersIndex w.1).erase w.2) }

/-- The transaction that deletes what was collected, if it is all as it was. -/
def workerDeleteSession (w : WorkerId) (c : DeleteInputs) (token : LockToken) :
    SessionM (Verdict Db Reply) := do
  watch ([.routes w.1, .hosts w.1, .deleteLock w, .sessionPolicy w, .doStorageId w,
    .workerVersions w, .workerSecrets w, .workflowDefs w] ++ c.affectedHosts.map .patterns ++
    (c.queues.sort (· ≤ ·)).map (.queueConsumer w.1) ++
    (c.retainedVersions.sort (· ≤ ·)).flatMap fun version =>
      [.bundle (w.1, w.2, version), .referrers (w.1, w.2, version)])
  let lock ← read (.deleteLock w)
  refuseIf (lock ≠ some token) (.refused 409 "deleting")
  let curVersions ← read (.workerVersions w)
  refuseIf (curVersions ≠ c.retainedVersions) .drift
  let curRoutes ← read (.routes w.1)
  let curActive := curRoutes.lookup w.2
  refuseIf (curActive ≠ c.activeVersion) .drift
  refuseIf (curActive.any fun active => active ∉ curVersions) (.refused 409 "projection_drift")
  let state ← Prog.forEach c.affectedHosts fun host => do
    let slots ← read (.patterns host)
    pure (host, slots)
  let secrets ← read (.workerSecrets w)
  let defs ← read (.workflowDefs w)
  refuseIf (decide (secrets ≠ ∅) ≠ c.hasWorkerSecrets) .drift
  refuseIf (decide (defs ≠ ∅) ≠ c.hasWorkflowDefs) .drift
  let referrers ← Prog.forEach (c.retainedVersions.sort (· ≤ ·)) fun version =>
    read (.referrers (w.1, w.2, version))
  let curQueues ← scanQueueConsumerKeysForWorker w
  refuseIf (curQueues ≠ c.queues) .drift
  refuseIf (∃ x ∈ referrers, x ≠ ∅) (.refused 409 "version_referenced")
  refuseIf (∃ r ∈ c.activeRoutes, ((HostState.at state r.host).lookup r.slot).any fun held =>
    (held.ns, held.worker) ≠ w) (.refused 409 "projection_drift")
  let held ← Prog.forEach (c.queues.sort (· ≤ ·)) fun queue => read (.queueConsumer w.1 queue)
  refuseIf (∃ x ∈ held, x.any fun p => p.worker ≠ w.2) (.refused 409 "projection_drift")
  pure (.commit (stageWorkerDelete w c (findHostsLosingNsOwnership w.1 c.activeRoutes state)
    (curRoutes.Any fun worker _ => worker ≠ w.2)) .done)

/-- Remove what is left of a worker that is already gone. -/
def stageResidualDelete (w : WorkerId) (hasStorage hasPolicy : Bool) (db : Db) : Db :=
  { db with
    doStorageId := if hasStorage then update db.doStorageId w none else db.doStorageId
    sessionPolicy := if hasPolicy then update db.sessionPolicy w none else db.sessionPolicy
    log := .deleted w :: db.log }

/-- The transaction that removes what is left of a worker that is already gone. -/
def residualDeleteSession (w : WorkerId) (c : DeleteInputs) (token : LockToken) :
    SessionM (Verdict Db Reply) := do
  watch [.deleteLock w, .routes w.1, .workerVersions w, .workerSecrets w, .workflowDefs w,
    .doStorageId w, .sessionPolicy w]
  let lock ← read (.deleteLock w)
  refuseIf (lock ≠ some token) (.refused 409 "deleting")
  let routes ← read (.routes w.1)
  let retainedVersions ← read (.workerVersions w)
  let secrets ← read (.workerSecrets w)
  let defs ← read (.workflowDefs w)
  let policy ← read (.sessionPolicy w)
  refuseIf (routes.lookup w.2 ≠ none ∨ retainedVersions ≠ ∅ ∨ secrets ≠ ∅ ∨ defs ≠ ∅) .drift
  let storageId ← read (.doStorageId w)
  refuseIf (storageId ≠ c.doStorageId) .drift
  if c.doStorageId = none ∧ policy = none then pure (.leave .unchanged)
  else pure (.commit (stageResidualDelete w (c.doStorageId ≠ none) (policy ≠ none)) .unchanged)

/-- Run a session once; nothing is returned when its commit is refused. -/
def runSession {α : Type} (i : ℕ) (body : SessionM (Verdict Db α)) : ControlM (Option α) :=
  Session.run Command.interface i body

/-- One attempt to delete a worker. It fails with `drift` or returns nothing when it is to be
    made again. -/
def deleteWorkerAttempt (i : ℕ) (w : WorkerId) (token : LockToken) : ControlM (Option Reply) := do
  match ← runSession i ((collectDeleteInputs w).bind fun c => .ret (.leave c)) with
  | none => pure none
  | some c =>
    if c.activeVersion.any (· ∉ c.retainedVersions) then .fail (.refused 409 "projection_drift")
    else if c.HasWorkerLifecycle then
      if c.referenced then .fail (.refused 409 "version_referenced")
      else
        requireDeleteLock w token
        runSession i (workerDeleteSession w c token)
    else
      requireDeleteLock w token
      runSession i (residualDeleteSession w c token)

def deleteWorkerLoop (i : ℕ) (w : WorkerId) (token : LockToken) : ℕ → ControlM Reply
  | 0 => .fail (.refused 503 "whole_delete_contention")
  | n + 1 => do
    let outcome ← ((deleteWorkerAttempt i w token).attempt :
      ControlM (Except Failure (Option Reply)))
    match outcome with
    | .ok (some reply) => pure reply
    | .ok none => deleteWorkerLoop i w token n
    | .error .drift => deleteWorkerLoop i w token n
    | .error e => .fail e

def deleteWorker (i : ℕ) (w : WorkerId) : ControlM Reply :=
  let token : LockToken := ⟨.whole, i⟩
  withDeleteLock w token (deleteWorkerLoop i w token maxAttempts)

end Wdl.Control
