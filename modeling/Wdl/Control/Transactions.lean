import Wdl.Control.System

/-!
# What transactions know when they commit

The transactions of the control plane decide from what they read before they commit. For
each of them there is a structure with what it knows of the database `db` in which it
commits: facts about the keys it watches, which are as it read them, and facts about
*earlier* databases where it read a key without watching it (`Outlook.Before`).

What a process may take for granted in addition, an `Outlook`, is a parameter: it is proved
elsewhere that processes keep to it.
-/

namespace Wdl.Control

/-- What a process takes for granted. -/
structure Outlook where
  /-- An invariant of the database. -/
  inv : Db → Prop
  /-- How the others change the database. -/
  rel : Db → Db → Prop
  /-- The process was given the number of this version and has not used it. -/
  held : VersionId → Db → Prop
  /-- The process knows that this has happened. -/
  seen : DatabaseEvent → Db → Prop

/-- Something held of the database before it was `db`. -/
def Outlook.Before (o : Outlook) (db : Db) (P : Db → Prop) : Prop := ∃ d, o.inv d ∧ o.rel d db ∧ P d

variable {o : Outlook} {db : Db} {w : WorkerId}

/-! ## Activations -/

/-- The metadata of the version that was active, which is read without being watched. -/
def OldMeta (o : Outlook) (db : Db) (w : WorkerId) (oldMeta : Option Meta) : Prop :=
  match (db.routes w.1).lookup w.2 with
  | none => oldMeta = none
  | some version => ∃ m, oldMeta = some m ∧
    o.Before db fun d => d.bundle (w.1, w.2, version) = some m

/-- What `promoteWithRoutes` knows. -/
structure Promoted (o : Outlook) (db : Db) (w : WorkerId) (p : PromoteInputs) : Prop where
  valid : validVersion p.newVersion
  candidate : db.bundle (w.1, w.2, p.newVersion) = some p.newMeta
  old : OldMeta o db w p.oldMeta
  queues : ∀ c ∈ p.newMeta.queueConsumers, ∀ held,
    (db.queueConsumers w.1).lookup c.queue = some held → held.worker = w.2
  affected : p.affectedHosts = ((p.oldRoutes ++ p.newMeta.routes).map (·.host)).eraseDups
  declared : ∀ r ∈ p.newMeta.routes, r.host ∈ db.hosts w.1
  hostState : p.hostState = p.affectedHosts.map fun host => (host, db.patterns host)
  sameNs : ∀ r ∈ p.newMeta.routes, ∀ slot held,
    (db.patterns r.host).lookup slot = some held → held.ns = w.1
  free : ∀ r ∈ p.newMeta.routes, ∀ held,
    (db.patterns r.host).lookup r.slot = some held → (held.ns, held.worker) = w
  policy : computeSessionPolicyPlan ((db.routes w.1).lookup w.2) p.newVersion
    (sessionPolicyModeFromMeta p.newMeta) (db.sessionPolicySequence w) (db.sessionPolicy w) =
      .ok p.sessionPolicyPlan

/-- What `bumpActiveAndPromote` knows. -/
structure Bumped (o : Outlook) (db : Db) (w : WorkerId) (p : BumpInputs) : Prop where
  valid : validVersion p.newVersion
  held : o.held (w.1, w.2, p.newVersion) db
  active : (db.routes w.1).lookup w.2 = some p.currentVersion
  source : db.bundle (w.1, w.2, p.currentVersion) = some p.srcMeta
  declared : ∀ r ∈ p.srcMeta.routes, r.host ∈ db.hosts w.1
  cron : bumpCronSequence (db.cron w) (db.cronSequence w) = .ok p.cronSequence
  policy : computeSessionPolicyPlan (some p.currentVersion) p.newVersion
    (sessionPolicyModeFromMeta p.srcMeta) (db.sessionPolicySequence w) (db.sessionPolicy w) =
      .ok p.sessionPolicyPlan

/-- One of the errors that say that the session policy is corrupt. -/
def Failure.IsPolicyCorruption (e : Failure) : Prop :=
  e = corruptSessionPolicyProjection ∨ e = corruptSessionPolicySequence

instance (e : Failure) : Decidable e.IsPolicyCorruption := inferInstanceAs (Decidable (_ ∨ _))

/-- An activation of the worker in this database finds the session policy corrupt. -/
def PolicyCorrupt (db : Db) (w : WorkerId) (e : Failure) : Prop :=
  ∃ newVersion mode, computeSessionPolicyPlan ((db.routes w.1).lookup w.2) newVersion mode
    (db.sessionPolicySequence w) (db.sessionPolicy w) = .error e

/-! ## Deploys -/

/-- The binding comes from `linkServiceBinding`: the active version of its target, and then
    the metadata of that version, were read before. -/
def LinkedService (o : Outlook) (db : Db) (w : WorkerId) (b : Binding) : Prop :=
  ∃ versions metas request, linkServiceBinding w versions metas request = .ok b ∧
    ∀ target version, versions target = some version → ∃ d d', o.inv d ∧ o.rel d d' ∧ o.inv d' ∧
      o.rel d' db ∧ (d.routes target.1).lookup target.2 = some version ∧
      metas (target.1, target.2, version) = d'.bundle (target.1, target.2, version)

/-- The binding comes from `linkPlatformBinding`, for one of the requests: the exports of the
    platform were read before. -/
def LinkedPlatform (o : Outlook) (db : Db) (w : WorkerId) (requests : List PlatformBindingRequest)
    (b : String × Binding) : Prop :=
  ∃ request ∈ requests, request.binding = b.1 ∧ ∃ existing exports,
    linkPlatformBinding w.1 request existing exports = .ok b.2 ∧ ∀ e ∈ exports,
      o.Before db fun d => ∃ m, d.bundle e.target = some m ∧ e.entry ∈ m.exports

/-- The bindings are those of a request, and are linked. -/
structure Linked (o : Outlook) (db : Db) (w : WorkerId) (requests : List PlatformBindingRequest)
    (bindings : List (String × Binding)) : Prop where
  names : (bindings.map Prod.fst).Nodup
  linked : ∀ b ∈ bindings, LinkedService o db w b.2 ∨ LinkedPlatform o db w requests b

/-- A reference to a database was resolved. The record is watched under the identifier it
    carries. -/
structure Resolved (o : Outlook) (db : Db) (ns : Ns) (ref : D1Ref) (resolved : ResolvedD1Ref) :
    Prop where
  binding : resolved.binding = ref.binding
  ready : resolved.database.state = .ready
  found : ∃ id, (o.Before db fun d => d.database (ns, id) = some resolved.database) ∧
    (id = resolved.database.databaseId → db.database (ns, id) = some resolved.database)

/-- What the commit of a deploy knows. -/
structure Deployed (o : Outlook) (db : Db) (v : VersionId) (prepared : Meta)
    (refs : List ResolvedD1Ref) : Prop where
  held : o.held v db
  request : ∃ raw r bindings, prepareDeployRequest v.1 raw = .ok r ∧
    prepared = preparedMeta r bindings ∧ Linked o db (v.1, v.2.1) r.platformBindings bindings
  resolved : List.Forall₂ (Resolved o db v.1) (extractD1Refs prepared.bindings) refs
  targets : ∀ ref ∈ extractOutgoingRefs prepared.bindings v.1,
    (db.routes ref.target.1).lookup ref.target.2.1 = some ref.target.2.2 ∧
    db.bundle ref.target ≠ none

/-! ## Secrets and deletion -/

/-- What `mutateSecretWithoutActive` knows. -/
structure SecretChanged (db : Db) (w : WorkerId) (key : String) (mutation : SecretMutation)
    (last : Bool) : Prop where
  stored : mutation = .delete → key ∈ db.workerSecrets w
  last : mutation = .delete → (last = true ↔ (db.workerSecrets w).keys = {key} ∧
    db.workerVersions w = ∅ ∧ db.workflowDefs w = ∅)

/-- What the deletion of a version knows. -/
structure VersionDeleted (db : Db) (w : WorkerId) (version : Version) (m : Meta)
    (lastRetainedNoActive nothingLeft : Bool) : Prop where
  inactive : (db.routes w.1).lookup w.2 ≠ some version
  retained : version ∈ db.workerVersions w
  stored : db.bundle (w.1, w.2, version) = some m
  unreferenced : db.referrers (w.1, w.2, version) = ∅
  last : lastRetainedNoActive = true ↔
    db.workerVersions w = {version} ∧ (db.routes w.1).lookup w.2 = none
  nothing : nothingLeft = true ↔ db.workerSecrets w = ∅ ∧ db.workflowDefs w = ∅

/-- What was collected about a worker, in reads that watch nothing. -/
structure Collected (o : Outlook) (db : Db) (w : WorkerId) (c : DeleteInputs) : Prop where
  versions : ∀ version, version ∈ c.metas.map Prod.fst ↔ version ∈ c.retainedVersions
  routes : match c.activeVersion with
    | none => c.activeRoutes = []
    | some version => ∃ m, c.activeRoutes = m.routes ∧
      o.Before db fun d => d.bundle (w.1, w.2, version) = some m

/-- What the deletion of a worker knows. -/
structure WorkerDeleted (o : Outlook) (db : Db) (w : WorkerId) (c : DeleteInputs)
    (losing : Finset Host) (stillActive : Bool) : Prop where
  collected : Collected o db w c
  versions : db.workerVersions w = c.retainedVersions
  active : (db.routes w.1).lookup w.2 = c.activeVersion
  secrets : c.hasWorkerSecrets = true ↔ db.workerSecrets w ≠ ∅
  unreferenced : ∀ version ∈ c.retainedVersions, db.referrers (w.1, w.2, version) = ∅
  losing : losing = findHostsLosingNsOwnership w.1 c.activeRoutes
    (c.affectedHosts.map fun host => (host, db.patterns host))
  stillActive : stillActive = true ↔ (db.routes w.1).Any fun worker _ => worker ≠ w.2
  /-- The scan finds a queue that the worker consumed all the time since its route was
      watched. -/
  queues : ∀ queue, (∀ d, o.inv d → o.rel d db → d.routes w.1 = db.routes w.1 →
    ∃ p, (d.queueConsumers w.1).lookup queue = some p ∧ p.worker = w.2) → queue ∈ c.queues
  queuesOwned : ∀ queue ∈ c.queues, ∀ p,
    (db.queueConsumers w.1).lookup queue = some p → p.worker = w.2

/-- What the removal of the residue of a worker knows. -/
structure ResidueDeleted (db : Db) (w : WorkerId) (hasPolicy : Bool) : Prop where
  inactive : (db.routes w.1).lookup w.2 = none
  versions : db.workerVersions w = ∅
  secrets : db.workerSecrets w = ∅
  defs : db.workflowDefs w = ∅
  policy : hasPolicy = true ↔ db.sessionPolicy w ≠ none

/-! ## Hosts and databases -/

/-- What `reconcileHosts` knows. The hosts of the namespace are read without being watched. -/
structure HostsReconciled (o : Outlook) (db : Db) (ns : Ns) (toAdd : Finset Host)
    (removals : List (Host × Finset Ns)) : Prop where
  added : Disjoint toAdd (removals.map Prod.fst).toFinset
  declarations : ∀ r ∈ removals, r.2 = db.hostDeclarations r.1
  unused : ∀ r ∈ removals,
    (∀ slot held, (db.patterns r.1).lookup slot = some held → held.ns ≠ ns) ∨
      o.Before db fun d => r.1 ∉ d.nsHosts ns ∧ d.patterns r.1 = db.patterns r.1

/-- What a change of the record of a database knows of the record. -/
structure DatabaseStored (db : Db) (ns : Ns) (databaseId : String) (c : DatabaseRecord)
    (state : DatabaseState) : Prop where
  stored : db.database (ns, databaseId) = some c
  id : c.databaseId = databaseId
  state : c.state = state

end Wdl.Control
