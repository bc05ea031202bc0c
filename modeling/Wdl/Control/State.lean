import Wdl.Base.Hash
import Wdl.Base.Optimistic
import Wdl.Shared.Names

/-!
# What the control plane stores

The control plane keeps everything about workers in one Redis database: the immutable
bundle of each version, the active version of each worker, and a number of indexes and
projections that other services read instead of the bundles.

`Db` has one field for each family of keys, indexed by what the key is built from, and
`Key` names the keys themselves, since it is keys that a transaction watches. The
metadata of a bundle (`Meta`) is kept as it is parsed; the modules of the bundle are not
modelled. The last four fields of `Db` are not stored anywhere: they record which process
was given a version number and what was first stored under it, so that it can be said
that numbers are not reused, which versions were activated and workers deleted, and what
happened to D1 databases.
-/

namespace Wdl.Control

/-- The name of a worker within its namespace. -/
abbrev Worker := String

/-- The number of a version, which is written `v<n>`. -/
abbrev Version := ℕ

/-- A worker with its namespace. -/
abbrev WorkerId := Ns × Worker

/-- A version of a worker. -/
abbrev VersionId := Ns × Worker × Version

/-- A host name. -/
abbrev Host := String

/-- The path of a route pattern, as the operator wrote it. -/
abbrev Slot := String

/-- The largest number that is kept exactly, `Number.MAX_SAFE_INTEGER`. -/
def maxSafeInteger : ℕ := 9007199254740991

/-! ## Bundles -/

/-- How the path of a route pattern is matched. -/
inductive PatternKind
  | exact
  | leading
  deriving DecidableEq, Repr

/-- A route pattern of a bundle. -/
structure RoutePattern where
  host : Host
  slot : Slot
  kind : PatternKind
  value : String
  deriving DecidableEq, Repr

/-- What happens to open sessions when a version becomes active. -/
inductive SessionMode
  | preserve
  | restart
  deriving DecidableEq, Repr

/-- A schedule of a worker. -/
structure CronSpec where
  cron : String
  timezone : String
  deriving DecidableEq, Repr

/-- A queue that a worker consumes. -/
structure QueueConsumer where
  queue : String
  maxBatchSize : ℕ
  maxBatchTimeoutMs : ℕ
  maxRetries : ℕ
  retryDelaySeconds : Option ℕ
  deadLetterQueue : Option String
  deriving DecidableEq, Repr

/-- An entrypoint that a worker offers to others, and to whom. The last two fields are
    for the platform's own namespaces. -/
structure ExportEntry where
  entrypoint : String
  allowedCallers : List Ns
  asAlias : Option String
  requiredCallerSecrets : Option (List String)
  deriving DecidableEq, Repr

/-- A binding of a worker to something else. -/
inductive Binding
  /-- Another worker, or an entrypoint of it; the version is pinned at deploy time. -/
  | service (ns : Option Ns) (service : Worker) (version : Option Version)
      (entrypoint : Option String) (requiredCallerSecrets : Option (List String))
  /-- A D1 database. -/
  | d1 (databaseId : String) (databaseName : Option String)
  /-- A class of Durable Objects. -/
  | durableObject (className : String) (doStorageId : Option String)
  /-- A binding of another type. -/
  | other (type : String)
  deriving DecidableEq, Repr

/-- A workflow that a worker defines. -/
structure Workflow where
  name : String
  className : String
  workflowKey : Option String
  deriving DecidableEq, Repr

/-- A request to bind an export of the platform, by its name. -/
structure PlatformBindingRequest where
  binding : String
  platform : String
  deriving DecidableEq, Repr

/-- The metadata of a bundle. -/
structure Meta where
  routes : List RoutePattern
  workersDev : Bool
  sessionPolicy : Option SessionMode
  durableObjectRollout : Option SessionMode
  crons : List CronSpec
  queueConsumers : List QueueConsumer
  exports : List ExportEntry
  /-- The bindings, by their names. -/
  bindings : List (String × Binding)
  workflows : List Workflow
  /-- The exports of the platform that the deploy asked for. They are not stored. -/
  platformBindings : List PlatformBindingRequest
  deriving DecidableEq, Repr

/-! ## Projections and indexes -/

/-- What the gateway reads for a slot of a host. -/
structure PatternProjection where
  ns : Ns
  worker : Worker
  version : Version
  kind : PatternKind
  value : String
  deriving DecidableEq, Repr

/-- What the gateway reads about the sessions of a worker. -/
structure SessionPolicyProjection where
  version : Version
  mode : SessionMode
  restartSequence : ℕ
  deriving DecidableEq, Repr

/-- What the scheduler reads about a queue. -/
structure QueueProjection where
  worker : Worker
  version : Version
  consumer : QueueConsumer
  deriving DecidableEq, Repr

/-- What the scheduler reads about the schedules of a worker: the version, with the
    sequence number that older projections carry, and for each schedule its generation. -/
structure CronProjection where
  version : Version
  seq : Option ℕ
  entries : List (CronSpec × ℕ)
  deriving DecidableEq, Repr

/-- A binding of a stored bundle, as it is recorded with what it refers to. -/
structure Referrer where
  callerNs : Ns
  callerWorker : Worker
  callerVersion : Version
  binding : String
  deriving DecidableEq, Repr

/-- The state of a D1 database. -/
inductive DatabaseState
  | provisional
  | ready
  deriving DecidableEq, Repr

/-- The record of a D1 database. -/
structure DatabaseRecord where
  databaseId : String
  databaseName : String
  state : DatabaseState
  provisionalUntil : Option ℕ
  deriving DecidableEq, Repr

/-- What happens to a D1 database. -/
inductive DatabaseChange
  | created
  | ready
  | rolledBack
  | deleted
  deriving DecidableEq, Repr

/-- A change of the D1 database with this name and this identifier. -/
structure DatabaseEvent where
  change : DatabaseChange
  ns : Ns
  databaseName : String
  databaseId : String
  deriving DecidableEq, Repr

/-- What a delete lock is taken for. -/
inductive LockKind
  | whole
  | version
  deriving DecidableEq, Repr

/-- The token of a delete lock. It is random in the source: here it names the process that
    made it. -/
structure LockToken where
  kind : LockKind
  process : ℕ
  deriving DecidableEq, Repr

/-- An activation of a version, or the deletion of a whole worker. -/
inductive Milestone
  | activated (w : WorkerId) (version : Version)
  | deleted (w : WorkerId)
  deriving DecidableEq, Repr

/-! ## The database -/

/-- What is stored, by families of keys. -/
structure Db where
  /-- `routes:<ns>`: the active version of each worker. -/
  routes : Ns → Hash Worker Version
  /-- `platform-domain-disabled:<ns>`. -/
  platformDomainDisabled : Ns → Finset Worker
  /-- `patterns:<host>`: the slots of a host. -/
  patterns : Host → Hash Slot PatternProjection
  /-- `hosts:<ns>`: the hosts a namespace has declared. -/
  hosts : Ns → Finset Host
  /-- `ns-hosts:<ns>`: the hosts on which a namespace has a slot. -/
  nsHosts : Ns → Finset Host
  /-- `host-declarations:<host>`: the namespaces that have declared a host. -/
  hostDeclarations : Host → Finset Ns
  /-- `declared-hosts`. -/
  declaredHosts : Finset Host
  /-- `namespaces`. -/
  namespaces : Finset Ns
  /-- `worker:<ns>:<worker>:v:<n>`: the bundles. -/
  bundle : VersionId → Option Meta
  /-- `worker:<ns>:<worker>:next_version`: the last number given to a version. -/
  nextVersion : WorkerId → ℕ
  /-- `worker-versions:<ns>:<worker>`: the retained versions. -/
  workerVersions : WorkerId → Finset Version
  /-- `workers:<ns>`. -/
  workersIndex : Ns → Finset Worker
  /-- `worker-version-referrers:<ns>:<worker>:<version>`. -/
  referrers : VersionId → Finset Referrer
  /-- `worker-delete-lock:<ns>:<worker>`: the token of the lock, if it is held. -/
  deleteLock : WorkerId → Option LockToken
  /-- The secrets of a namespace. -/
  nsSecrets : Ns → Hash String String
  /-- The secrets of a worker. -/
  workerSecrets : WorkerId → Hash String String
  /-- `wf:defs:<ns>:<worker>`: the key and the class of each workflow. -/
  workflowDefs : WorkerId → Hash String (String × String)
  /-- `worker:do-storage:<ns>:<worker>`. -/
  doStorageId : WorkerId → Option String
  /-- `worker:session-policy:<ns>:<worker>`. -/
  sessionPolicy : WorkerId → Option SessionPolicyProjection
  /-- `worker:session-policy-seq:<ns>:<worker>`. -/
  sessionPolicySequence : WorkerId → Option ℕ
  /-- `crons:<ns>:<worker>`. -/
  cron : WorkerId → Option CronProjection
  /-- `cron:seq:<ns>:<worker>`. -/
  cronSequence : WorkerId → Option ℕ
  /-- The consumer of each queue of a namespace, which has a key of its own. -/
  queueConsumers : Ns → Hash String QueueProjection
  /-- The record of each D1 database of a namespace. -/
  database : Ns × String → Option DatabaseRecord
  /-- The database with a name. -/
  databaseName : Ns × String → Option String
  /-- The bindings that refer to a D1 database. -/
  databaseReferrers : Ns × String → Finset Referrer
  /-- `d1:databases:<ns>`: the identifiers of the D1 databases of a namespace. -/
  databases : Ns → Finset String
  /-- The process that was given a version number (not stored). -/
  holder : VersionId → Option ℕ
  /-- The metadata first stored for a version (not stored). -/
  issued : VersionId → Option Meta
  /-- The activations and deletions so far, the last one first (not stored). -/
  log : List Milestone
  /-- What happened to D1 databases, the last one first (not stored). -/
  databaseLog : List DatabaseEvent

/-- The database with nothing in it. -/
def Db.empty : Db where
  routes _ := ∅
  platformDomainDisabled _ := ∅
  patterns _ := ∅
  hosts _ := ∅
  nsHosts _ := ∅
  hostDeclarations _ := ∅
  declaredHosts := ∅
  namespaces := ∅
  bundle _ := none
  nextVersion _ := 0
  workerVersions _ := ∅
  workersIndex _ := ∅
  referrers _ := ∅
  deleteLock _ := none
  nsSecrets _ := ∅
  workerSecrets _ := ∅
  workflowDefs _ := ∅
  doStorageId _ := none
  sessionPolicy _ := none
  sessionPolicySequence _ := none
  cron _ := none
  cronSequence _ := none
  queueConsumers _ := ∅
  database _ := none
  databaseName _ := none
  databaseReferrers _ := ∅
  databases _ := ∅
  holder _ := none
  issued _ := none
  log := []
  databaseLog := []

/-- The active version of a worker. -/
abbrev Db.active (db : Db) (w : WorkerId) : Option Version := (db.routes w.1).lookup w.2

/-- The keys that transactions watch and read. -/
inductive Key
  | routes (ns : Ns)
  | patterns (host : Host)
  | hosts (ns : Ns)
  | nsHosts (ns : Ns)
  | hostDeclarations (host : Host)
  | bundle (v : VersionId)
  | workerVersions (w : WorkerId)
  | referrers (v : VersionId)
  | deleteLock (w : WorkerId)
  | nsSecrets (ns : Ns)
  | workerSecrets (w : WorkerId)
  | workflowDefs (w : WorkerId)
  | doStorageId (w : WorkerId)
  | sessionPolicy (w : WorkerId)
  | sessionPolicySequence (w : WorkerId)
  | cron (w : WorkerId)
  | cronSequence (w : WorkerId)
  | queueConsumer (ns : Ns) (queue : String)
  | database (ns : Ns) (databaseId : String)
  | databaseName (ns : Ns) (name : String)
  | databaseReferrers (ns : Ns) (databaseId : String)
  deriving DecidableEq, Repr

/-- What is read at a key. -/
abbrev Key.Val : Key → Type
  | .routes _ => Hash Worker Version
  | .patterns _ => Hash Slot PatternProjection
  | .hosts _ => Finset Host
  | .nsHosts _ => Finset Host
  | .hostDeclarations _ => Finset Ns
  | .bundle _ => Option Meta
  | .workerVersions _ => Finset Version
  | .referrers _ => Finset Referrer
  | .deleteLock _ => Option LockToken
  | .nsSecrets _ => Hash String String
  | .workerSecrets _ => Hash String String
  | .workflowDefs _ => Hash String (String × String)
  | .doStorageId _ => Option String
  | .sessionPolicy _ => Option SessionPolicyProjection
  | .sessionPolicySequence _ => Option ℕ
  | .cron _ => Option CronProjection
  | .cronSequence _ => Option ℕ
  | .queueConsumer _ _ => Option QueueProjection
  | .database _ _ => Option DatabaseRecord
  | .databaseName _ _ => Option String
  | .databaseReferrers _ _ => Finset Referrer

/-- The value of a key. -/
def Db.get (db : Db) : (k : Key) → k.Val
  | .routes ns => db.routes ns
  | .patterns host => db.patterns host
  | .hosts ns => db.hosts ns
  | .nsHosts ns => db.nsHosts ns
  | .hostDeclarations host => db.hostDeclarations host
  | .bundle v => db.bundle v
  | .workerVersions w => db.workerVersions w
  | .referrers v => db.referrers v
  | .deleteLock w => db.deleteLock w
  | .nsSecrets ns => db.nsSecrets ns
  | .workerSecrets w => db.workerSecrets w
  | .workflowDefs w => db.workflowDefs w
  | .doStorageId w => db.doStorageId w
  | .sessionPolicy w => db.sessionPolicy w
  | .sessionPolicySequence w => db.sessionPolicySequence w
  | .cron w => db.cron w
  | .cronSequence w => db.cronSequence w
  | .queueConsumer ns queue => (db.queueConsumers ns).lookup queue
  | .database ns databaseId => db.database (ns, databaseId)
  | .databaseName ns name => db.databaseName (ns, name)
  | .databaseReferrers ns databaseId => db.databaseReferrers (ns, databaseId)

/-- The keys of the database. Only the keys of queue consumers are ever scanned for. -/
abbrev keyed : Keyed Db where
  Key := Key
  Val := Key.Val
  get := Db.get
  Present db
    | .queueConsumer ns queue => ((db.queueConsumers ns).lookup queue).isSome
    | _ => True

end Wdl.Control
