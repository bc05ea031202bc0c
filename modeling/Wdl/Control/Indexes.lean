import Wdl.Base.Index
import Wdl.Control.State

/-!
# What transactions write

The writes of a transaction are staged one after the other and applied together. Each
function here is one group of them, under the name it has in the source, and maps what is
stored before to what is stored after. Messages that are published with the writes, and the
indexes of the scheduler, are not modelled.
-/

namespace Wdl.Control

open Function

/-! ## References of a bundle -/

/-- A reference to a version of a worker that a binding of a bundle pins. -/
structure OutgoingRef where
  target : VersionId
  binding : String
  deriving DecidableEq, Repr

/-- A reference to a D1 database. -/
structure D1Ref where
  binding : String
  databaseId : String
  deriving DecidableEq, Repr

/-- The pinned references of the bindings of a bundle in the namespace `callerNs`. -/
def extractOutgoingRefs (bindings : List (String × Binding)) (callerNs : Ns) : List OutgoingRef :=
  bindings.filterMap fun
    | (binding, .service ns service (some version) _ _) =>
      some ⟨(ns.getD callerNs, service, version), binding⟩
    | _ => none

/-- The D1 databases of the bindings of a bundle. -/
def extractD1Refs (bindings : List (String × Binding)) : List D1Ref :=
  bindings.filterMap fun
    | (binding, .d1 databaseId _) => some ⟨binding, databaseId⟩
    | _ => none

/-- The member that records a binding of a version. -/
def callerReferrerMember (v : VersionId) (binding : String) : Referrer :=
  ⟨v.1, v.2.1, v.2.2, binding⟩

/-- The entries of the index of referrers for the references of a version. -/
def outgoingEntries (v : VersionId) (refs : List OutgoingRef) : List (VersionId × Referrer) :=
  refs.map fun ref => (ref.target, callerReferrerMember v ref.binding)

/-- The entries of the index of referrers of databases for the references of a version. -/
def d1Entries (v : VersionId) (refs : List D1Ref) : List ((Ns × String) × Referrer) :=
  refs.map fun ref => ((v.1, ref.databaseId), callerReferrerMember v ref.binding)

def stageOutgoingReferrerAdds (v : VersionId) (refs : List OutgoingRef) (db : Db) : Db :=
  { db with referrers := Index.insertAll db.referrers (outgoingEntries v refs) }

def stageOutgoingReferrerRemovals (v : VersionId) (refs : List OutgoingRef) (db : Db) : Db :=
  { db with referrers := Index.eraseAll db.referrers (outgoingEntries v refs) }

def stageD1ReferrerAdds (v : VersionId) (refs : List D1Ref) (db : Db) : Db :=
  { db with databaseReferrers := Index.insertAll db.databaseReferrers (d1Entries v refs) }

def stageD1ReferrerRemovals (v : VersionId) (refs : List D1Ref) (db : Db) : Db :=
  { db with databaseReferrers := Index.eraseAll db.databaseReferrers (d1Entries v refs) }

/-! ## Workers and their versions -/

def stageWorkerVisible (w : WorkerId) (db : Db) : Db :=
  { db with workersIndex := update db.workersIndex w.1 (insert w.2 (db.workersIndex w.1)) }

def stageWorkerHidden (w : WorkerId) (db : Db) : Db :=
  { db with
    workersIndex := update db.workersIndex w.1 ((db.workersIndex w.1).erase w.2) }

def stageWorkerVersionIndexUpsert (w : WorkerId) (version : Version) (db : Db) : Db :=
  let db := stageWorkerVisible w db
  { db with
    workerVersions := update db.workerVersions w (insert version (db.workerVersions w)) }

def stageWorkerVersionIndexRemove (w : WorkerId) (version : Version) (db : Db) : Db :=
  { db with
    workerVersions := update db.workerVersions w ((db.workerVersions w).erase version) }

def stageWorkerVersionIndexDelete (w : WorkerId) (db : Db) : Db :=
  { db with workerVersions := update db.workerVersions w ∅ }

/-- Store the bundle of a version that its number was given for. What was first stored
    under the number is remembered. -/
def stageBundleCommit (v : VersionId) (m : Meta) (db : Db) : Db :=
  { db with
    bundle := update db.bundle v (some m)
    issued := update db.issued v (some ((db.issued v).getD m)) }

def stageBundleDelete (v : VersionId) (db : Db) : Db :=
  { db with bundle := update db.bundle v none }

/-- `COPY` a bundle to another version. A source that does not exist is not copied. -/
def stageBundleCopy (src dst : VersionId) (db : Db) : Db :=
  match db.bundle src with
  | none => db
  | some m => stageBundleCommit dst m db

/-! ## Routes -/

/-- The projection of a route pattern of a version. -/
def RoutePattern.projection (w : WorkerId) (version : Version) (r : RoutePattern) :
    PatternProjection :=
  ⟨w.1, w.2, version, r.kind, r.value⟩

/-- The host and the slot of a route pattern. -/
def routeKey (r : RoutePattern) : Host × Slot := (r.host, r.slot)

def stageVersionFlip (w : WorkerId) (newVersion : Version) (routes : List RoutePattern)
    (workersDev : Bool) (db : Db) : Db :=
  { db with
    patterns := Directory.putAll db.patterns
      (routes.map fun r => (routeKey r, r.projection w newVersion))
    routes := update db.routes w.1 ((db.routes w.1).insert w.2 newVersion)
    platformDomainDisabled := update db.platformDomainDisabled w.1
      (if workersDev then (db.platformDomainDisabled w.1).erase w.2
        else insert w.2 (db.platformDomainDisabled w.1))
    log := .activated w newVersion :: db.log }

/-- Remove slots. -/
def stageSlotRemovals (routes : List RoutePattern) (db : Db) : Db :=
  { db with patterns := Directory.dropAll db.patterns (routes.map routeKey) }

def stageNamespace (ns : Ns) (db : Db) : Db := { db with namespaces := insert ns db.namespaces }

/-- Update the hosts on which a namespace has slots. -/
def stageNsHosts (ns : Ns) (add rem : Finset Host) (db : Db) : Db :=
  { db with nsHosts := update db.nsHosts ns ((db.nsHosts ns ∪ add) \ rem) }

/-! ## Session policy -/

/-- What an activation does to the session policy. -/
structure SessionPolicyPlan where
  mode : SessionMode
  restartSequence : ℕ
  persistSequence : Bool
  deriving DecidableEq, Repr

def stageSessionPolicy (w : WorkerId) (version : Version) (plan : SessionPolicyPlan)
    (db : Db) : Db :=
  { db with
    sessionPolicySequence :=
      if plan.persistSequence then
        update db.sessionPolicySequence w (some plan.restartSequence)
      else db.sessionPolicySequence
    sessionPolicy := update db.sessionPolicy w
      (some ⟨version, plan.mode, plan.restartSequence⟩) }

/-! ## Schedules and queues -/

/-- What an activation does to the schedules. -/
structure CronPlan where
  cronSeq : ℕ
  persistSequence : Bool
  /-- The new schedules, with their generations. -/
  added : List (CronSpec × ℕ)
  removed : List CronSpec
  deriving DecidableEq, Repr

def stageCronSequence (w : WorkerId) (seq : ℕ) (db : Db) : Db :=
  { db with cronSequence := update db.cronSequence w (some seq) }

def stageCronProjectionMeta (w : WorkerId) (version : Version) (db : Db) : Db :=
  { db with
    cron := update db.cron w
      (some ⟨version, none, ((db.cron w).map (·.entries)).getD []⟩) }

def stageCronProjection (w : WorkerId) (version : Version) (crons : List CronSpec) (plan : CronPlan)
    (db : Db) : Db :=
  let db := if plan.persistSequence then stageCronSequence w plan.cronSeq db else db
  if crons = [] then { db with cron := update db.cron w none }
  else
    let entries := ((db.cron w).map (·.entries)).getD []
    { db with
      cron := update db.cron w
        (some ⟨version, none, entries.filter (fun e => e.1 ∉ plan.removed) ++ plan.added⟩) }

/-- Replace the projections of queues by those of a version. -/
def stageQueueConsumerProjections (w : WorkerId) (version : Version)
    (consumers : List QueueConsumer) (db : Db) : Db :=
  { db with
    queueConsumers := Directory.putAll db.queueConsumers
      (consumers.map fun c => ((w.1, c.queue), ⟨w.2, version, c⟩)) }

def stageQueueConsumerRemovals (ns : Ns) (queues : List String) (db : Db) : Db :=
  { db with queueConsumers := Directory.dropAll db.queueConsumers (queues.map fun q => (ns, q)) }

end Wdl.Control
