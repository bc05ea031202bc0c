import Wdl.Control.D1
import Wdl.Control.Routing

/-!
# Deploying a version

A deploy first *links* the bindings of the request to other workers: each is pinned to the
version of the target that is active now, if the target exports the entrypoint to the
caller. This is decided from metadata that is read without watching anything. The commit
then checks, in one transaction with the write of the bundle, that the pinned versions are
still active and stored, and that nobody is deleting them.
-/

namespace Wdl.Control

/-- The parts of a deploy request that are modelled. -/
structure DeployRequest where
  routes : List RoutePattern
  workersDev : Bool
  sessionPolicy : SessionMode
  exports : List ExportEntry
  platformBindings : List PlatformBindingRequest
  crons : List CronSpec
  queueConsumers : List QueueConsumer
  /-- The bindings, by their names. -/
  bindings : List (String × Binding)
  workflows : List Workflow
  deriving DecidableEq, Repr

def invalidRequest : Failure := .refused 400 "invalid_request"

/-! ## Checks of the request -/

/-- An entry of the exports. Names and secrets are only for the namespaces of the platform,
    which must give every entry a name. -/
def parseExport (ns : Ns) (e : ExportEntry) : Except Failure ExportEntry :=
  if ∃ caller ∈ e.allowedCallers, caller ∈ reservedTenantNs then .error invalidRequest
  else if ns ∈ platformTierReservedNs then
    if e.asAlias = none then .error invalidRequest
    else .ok { e with
      allowedCallers := e.allowedCallers.eraseDups
      requiredCallerSecrets := e.requiredCallerSecrets.map List.eraseDups }
  else if e.asAlias ≠ none ∨ e.requiredCallerSecrets ≠ none then .error invalidRequest
  else .ok { e with allowedCallers := e.allowedCallers.eraseDups }

/-- The exports of a request: no entrypoint and no name twice. -/
def parseExports (ns : Ns) (raw : List ExportEntry) : Except Failure (List ExportEntry) := do
  let parsed ← raw.mapM (parseExport ns)
  if (raw.map (·.entrypoint)).Nodup ∧ (raw.filterMap (·.asAlias)).Nodup then .ok parsed
  else .error invalidRequest

/-- The default entrypoint is left out of the metadata. -/
def normalizeBinding : Binding → Binding
  | .service ns service version entrypoint secrets =>
    .service ns service version (if entrypoint = some "default" then none else entrypoint) secrets
  | b => b

/-- What `validateBindings` asks of a binding: the name of a database is not for the caller
    to set. -/
def validBinding : Binding → Bool
  | .d1 _ databaseName => databaseName = none
  | _ => true

/-- The request with its exports parsed and its bindings normalized. -/
def prepareDeployRequest (ns : Ns) (r : DeployRequest) : Except Failure DeployRequest := do
  let exports ← parseExports ns r.exports
  if ¬ (r.routes.map routeKey).Nodup then .error invalidRequest
  else if r.workersDev = false ∧ r.routes = [] then .error invalidRequest
  else if isReservedNs ns ∧ ns ∉ routesAllowedReservedNs ∧ r.routes ≠ [] then .error invalidRequest
  else if ¬ (r.platformBindings.map (·.binding)).Nodup then .error invalidRequest
  else if ¬ (r.queueConsumers.map (·.queue)).Nodup then .error invalidRequest
  else if isValidRouteNs ns = false ∧ (r.crons ≠ [] ∨ r.queueConsumers ≠ []) then
    .error invalidRequest
  else if ¬ (r.bindings.map Prod.fst).Nodup ∨ ∃ b ∈ r.bindings, validBinding b.2 = false then
    .error invalidRequest
  else .ok { r with
    exports := exports
    bindings := r.bindings.map fun b => (b.1, normalizeBinding b.2) }

/-- What is known of a prepared request. -/
structure Prepared (ns : Ns) (raw r : DeployRequest) : Prop where
  exports : parseExports ns raw.exports = .ok r.exports
  routes : (r.routes.map routeKey).Nodup
  queues : (r.queueConsumers.map (·.queue)).Nodup
  names : (r.bindings.map Prod.fst).Nodup

theorem prepareDeployRequest_ok {ns : Ns} {raw r : DeployRequest}
    (h : prepareDeployRequest ns raw = .ok r) : Prepared ns raw r := by
  rw [prepareDeployRequest] at h
  cases hexports : parseExports ns raw.exports with
  | error e => rw [hexports] at h; cases h
  | ok exports =>
    rw [hexports] at h
    split at h
    · cases h
    rename_i hroutes
    split at h
    · cases h
    split at h
    · cases h
    split at h
    · cases h
    split at h
    · cases h
    rename_i hqueues
    split at h
    · cases h
    split at h
    · cases h
    rename_i hbindings
    cases h
    push Not at hroutes hqueues hbindings
    refine ⟨hexports, hroutes, hqueues, ?_⟩
    simpa [List.map_map, Function.comp_def] using hbindings.1

/-! ## Linking -/

/-- Whether a caller may use an export of another worker. -/
def evaluateServiceBindingAcl (callerNs targetNs : Ns) (allowedCallers : List Ns) : Bool :=
  callerNs = targetNs ∨ "*" ∈ allowedCallers ∨ callerNs ∈ allowedCallers

/-- Pin a service binding to the active version of its target. -/
def linkServiceBinding (caller : WorkerId) (lookupTargetVersion : WorkerId → Option Version)
    (lookupTargetMeta : VersionId → Option Meta) : Binding → Except Failure Binding
  | .service ns service _ entrypoint requiredCallerSecrets =>
    let targetNs := ns.getD caller.1
    let normalizedEntrypoint := entrypoint.getD "default"
    if requiredCallerSecrets ≠ none then .error (.refused 400 "service_binding_reserved_field")
    else if targetNs ∈ platformTierReservedNs then
      .error (.refused 400 "service_binding_platform_namespace")
    else if (targetNs, service) = caller then .error (.refused 400 "service_binding_self_target")
    else match lookupTargetVersion (targetNs, service) with
    | none => .error (.refused 409 "service_binding_target_inactive")
    | some targetVersion =>
      let exports := ((lookupTargetMeta (targetNs, service, targetVersion)).map (·.exports)).getD []
      let linked := .service ns service (some targetVersion) entrypoint none
      if exports ≠ [] then
        match exports.find? fun e => e.entrypoint = normalizedEntrypoint with
        | none => .error (.refused 400 "service_binding_entrypoint_not_exported")
        | some e =>
          if evaluateServiceBindingAcl caller.1 targetNs e.allowedCallers then .ok linked
          else .error (.refused 403 "service_binding_acl_denied")
      else if normalizedEntrypoint ≠ "default" then
        .error (.refused 400 "service_binding_entrypoint_not_exported")
      else if caller.1 ≠ targetNs then .error (.refused 403 "service_binding_acl_denied")
      else .ok linked
  | b => .ok b

/-- An export of an active worker of the platform. -/
structure PlatformExport where
  target : VersionId
  entry : ExportEntry
  deriving DecidableEq, Repr

/-- The binding to an export of the platform. -/
def linkPlatformBinding (callerNs : Ns) (request : PlatformBindingRequest)
    (existingBindings : List (String × Binding)) (platformExports : List PlatformExport) :
    Except Failure Binding :=
  if request.binding ∈ existingBindings.map Prod.fst then
    .error (.refused 400 "platform_binding_name_collision")
  else match platformExports.find? fun e => e.entry.asAlias = some request.platform with
  | none => .error (.refused 400 "platform_binding_not_registered")
  | some e =>
    if evaluateServiceBindingAcl callerNs e.target.1 e.entry.allowedCallers then
      let secrets := e.entry.requiredCallerSecrets.getD []
      .ok (.service (some e.target.1) e.target.2.1 (some e.target.2.2)
        (if e.entry.entrypoint = "default" then none else some e.entry.entrypoint)
        (if secrets = [] then none else some secrets))
    else .error (.refused 403 "platform_binding_acl_denied")

/-- Link the requests for exports of the platform one after the other. -/
def linkPlatformBindings (callerNs : Ns) (platformExports : List PlatformExport) :
    List PlatformBindingRequest → List (String × Binding) → Except Failure (List (String × Binding))
  | [], bindings => .ok bindings
  | request :: requests, bindings => do
    let linked ← linkPlatformBinding callerNs request bindings platformExports
    linkPlatformBindings callerNs platformExports requests (bindings ++ [(request.binding, linked)])

/-! ## Preflight -/

/-- The workers whose active versions are looked up for the service bindings. -/
def serviceBindingPreflightTargets (w : WorkerId) (bindings : List (String × Binding)) :
    List WorkerId :=
  (bindings.filterMap fun
    | (_, .service ns service _ _ _) => some (ns.getD w.1, service)
    | _ => none).eraseDups.filter fun target => target ≠ w ∧ target.1 ∉ platformTierReservedNs

def validateServiceBindingsPreflight (w : WorkerId) (bindings : List (String × Binding)) :
    ControlM (List (String × Binding)) := do
  let versions ← Prog.forEach (serviceBindingPreflightTargets w bindings) fun target => do
    let routes ← readPlain (.routes target.1)
    pure (target, routes.lookup target.2)
  let versioned : List VersionId :=
    versions.filterMap fun x => x.2.map fun version => (x.1.1, x.1.2, version)
  let metas ← Prog.forEach versioned fun target => do
    let m ← readPlain (.bundle target)
    pure (target, m)
  let linked := bindings.mapM fun b => do
    let linked ← linkServiceBinding w (fun target => (versions.lookup target).join)
      (fun target => (metas.lookup target).join) b.2
    .ok (b.1, linked)
  match linked with
  | .ok bindings => pure bindings
  | .error e => .fail e

/-- The exports of the active workers of the platform's namespaces. -/
def collectPlatformExports : ControlM (List PlatformExport) := do
  let routeHashes ← Prog.forEach platformTierReservedNs fun ns => do
    let routes ← readPlain (.routes ns)
    pure ((routeEntries routes).map fun e => ((ns, e.1, e.2) : VersionId))
  let exportsByWorker ← Prog.forEach routeHashes.flatten fun target => do
    let m ← readPlain (.bundle target)
    pure (((m.map (·.exports)).getD []).filterMap fun e =>
      if e.asAlias = none then none else some (⟨target, e⟩ : PlatformExport))
  pure exportsByWorker.flatten

def runDeployPreflight (w : WorkerId) (r : DeployRequest) : ControlM (List (String × Binding)) := do
  let bindings ← validateServiceBindingsPreflight w r.bindings
  if r.platformBindings = [] then pure bindings
  else
    let platformExports ← collectPlatformExports
    match linkPlatformBindings w.1 platformExports r.platformBindings bindings with
    | .ok bindings => pure bindings
    | .error e => .fail e

/-! ## Commit -/

/-- The metadata that goes into the bundle, before names are resolved. -/
def preparedMeta (r : DeployRequest) (bindings : List (String × Binding)) : Meta where
  routes := r.routes
  workersDev := r.workersDev
  sessionPolicy := if r.sessionPolicy = .preserve then none else some r.sessionPolicy
  durableObjectRollout := none
  crons := r.crons
  queueConsumers := r.queueConsumers
  exports := r.exports
  bindings := bindings
  workflows := r.workflows
  platformBindings := r.platformBindings

def hasDurableObjectBinding (m : Meta) : Bool := doStorageIds m ≠ []

/-- A reference of a binding to a database, by name or by identifier, and the database. -/
structure ResolvedD1Ref where
  binding : String
  database : DatabaseRecord
  deriving DecidableEq, Repr

/-- The reference with the identifier of the database. -/
def ResolvedD1Ref.toD1Ref (r : ResolvedD1Ref) : D1Ref := ⟨r.binding, r.database.databaseId⟩

def d1DatabaseNotFound : Failure := .refused 404 "d1_database_not_found"

/-- The database is looked up again once its own key is watched. -/
def resolveD1RefForCommit (ns : Ns) (ref : D1Ref) : SessionM ResolvedD1Ref := do
  match ← resolveDatabaseRefFrom read ns ref.databaseId with
  | none => .fail d1DatabaseNotFound
  | some database => do
    watch [.database ns database.databaseId]
    match ← resolveDatabaseRefFrom read ns database.databaseId with
    | none => .fail d1DatabaseNotFound
    | some current =>
      if current.databaseId = database.databaseId then pure ⟨ref.binding, current⟩
      else .fail d1DatabaseNotFound

def validateOutgoingRefForCommit (ref : OutgoingRef) : SessionM Unit := do
  let targetLock ← read (.deleteLock (ref.target.1, ref.target.2.1))
  let routes ← read (.routes ref.target.1)
  let target ← read (.bundle ref.target)
  refuseIf (targetLock ≠ none) (.refused 409 "target_deleting")
  refuseIf (routes.lookup ref.target.2.1 ≠ some ref.target.2.2) (.refused 409 "target_drift")
  refuseIf (target = none) (.refused 409 "target_drift")

/-- Give every binding of a class of Durable Objects the storage of the worker. -/
def attachDoStorageId (storageId : String) : Binding → Binding
  | .durableObject className _ => .durableObject className (some storageId)
  | b => b

/-- Put the resolved databases in the bindings. -/
def attachDatabases (refs : List ResolvedD1Ref) (b : String × Binding) : String × Binding :=
  match refs.find? fun ref => ref.binding = b.1 with
  | some ref => (b.1, .d1 ref.database.databaseId (some ref.database.databaseName))
  | none => b

/-- The identifiers that a deploy makes up. -/
structure FreshIds where
  doStorageId : String
  /-- The key of a workflow that is new. -/
  workflowKey : String → String

/-- The metadata as it is stored. -/
def committedMeta (m : Meta) (refs : List ResolvedD1Ref) (storageId : String)
    (workflowKey : String → String) : Meta :=
  { m with
    bindings :=
      (m.bindings.map fun b => (b.1, attachDoStorageId storageId b.2)).map (attachDatabases refs)
    workflows := m.workflows.map fun wf => { wf with workflowKey := some (workflowKey wf.name) } }

/-- The definitions of the workflows of a bundle. -/
def stageWorkflowDefs (w : WorkerId) (m : Meta) (workflowKey : String → String) (db : Db) : Db :=
  { db with
    workflowDefs := Function.update db.workflowDefs w
      (m.workflows.foldl (fun defs wf => defs.insert wf.name (workflowKey wf.name, wf.className))
        (db.workflowDefs w)) }

def stageDeployCommit (v : VersionId) (prepared : Meta) (refs : List ResolvedD1Ref)
    (storageId : String) (workflowKey : String → String) (db : Db) : Db :=
  let w : WorkerId := (v.1, v.2.1)
  let db := stageBundleCommit v (committedMeta prepared refs storageId workflowKey) db
  let db : Db := { db with
    doStorageId := if hasDurableObjectBinding prepared ∧ db.doStorageId w = none then
        Function.update db.doStorageId w (some storageId)
      else db.doStorageId }
  let db := stageWorkflowDefs w prepared workflowKey db
  let db := stageWorkerVersionIndexUpsert w v.2.2 db
  let db := stageOutgoingReferrerAdds v (extractOutgoingRefs prepared.bindings v.1) db
  stageD1ReferrerAdds v (refs.map (·.toD1Ref)) db

/-- The keys that the commit of a deploy watches. -/
def commitKeys (w : WorkerId) (prepared : Meta) : List Key :=
  [.deleteLock w, .nsSecrets w.1, .workerSecrets w] ++
    (if hasDurableObjectBinding prepared then [.doStorageId w] else []) ++
    (if prepared.workflows ≠ [] then [.workflowDefs w] else []) ++
    ((extractD1Refs prepared.bindings).flatMap fun ref =>
      [.database w.1 ref.databaseId, .databaseName w.1 ref.databaseId]) ++
    ((extractOutgoingRefs prepared.bindings w.1).flatMap fun ref =>
      [.routes ref.target.1, .bundle ref.target, .deleteLock (ref.target.1, ref.target.2.1)])

def deployCommitSession (v : VersionId) (prepared : Meta) (fresh : FreshIds) :
    SessionM (Verdict Db Reply) := do
  let w : WorkerId := (v.1, v.2.1)
  watch (commitKeys w prepared)
  let refs ← Prog.forEach (extractD1Refs prepared.bindings) (resolveD1RefForCommit w.1)
  let callerLock ← read (.deleteLock w)
  refuseIf (callerLock ≠ none) (.refused 409 "caller_deleting")
  let _ ← Prog.forEach (extractOutgoingRefs prepared.bindings w.1) validateOutgoingRefForCommit
  let defs ← read (.workflowDefs w)
  let storageId ← read (.doStorageId w)
  let workflowKey := fun name => ((defs.lookup name).map Prod.fst).getD (fresh.workflowKey name)
  pure (.commit
    (stageDeployCommit v prepared refs (storageId.getD fresh.doStorageId) workflowKey) .done)

def deploy (i : ℕ) (w : WorkerId) (r : DeployRequest) (fresh : FreshIds) : ControlM Reply := do
  match prepareDeployRequest w.1 r with
  | .error e => .fail e
  | .ok r => do
    let bindings ← runDeployPreflight w r
    let version ← incrNextVersion i w
    if validVersion version then
      optimistic i (.refused 503 "deploy_contention")
        (deployCommitSession (w.1, w.2, version) (preparedMeta r bindings) fresh)
    else .fail (.refused 500 "invalid_version_number")

end Wdl.Control
