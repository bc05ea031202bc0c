import Wdl.Control.Session

/-!
# D1 databases

A database is created in steps: its record is stored as provisional, the storage is set up
by another service, and the record becomes ready; when something fails, the provisional
record is taken back. Only a ready database can be bound, and one that is bound cannot be
deleted. The tombstones of deleted ones are not modelled.
-/

namespace Wdl.Control

open Function

/-- The database with this identifier or, if there is none, with this name, if it is ready. -/
def resolveDatabaseRefFrom {M : Type → Type} [Monad M] (read : (k : Key) → M k.Val) (ns : Ns)
    (databaseRef : String) : M (Option DatabaseRecord) := do
  let byId ← read (.database ns databaseRef)
  let alias' ← read (.databaseName ns databaseRef)
  match byId with
  | some database => pure (if database.state = .ready then some database else none)
  | none =>
    match alias' with
    | none => pure none
    | some databaseId => do
      let byName ← read (.database ns databaseId)
      pure (byName.filter (·.state = .ready))

/-- What is wrong with the record of a database that is to be created or taken back. -/
inductive MetadataResult
  | ok
  | nameExists
  | notProvisional
  | aliasMismatch
  deriving DecidableEq, Repr

/-- Store the record of a new database. -/
def stageDatabaseCommit (ns : Ns) (databaseName databaseId : String)
    (provisionalUntil : ℕ) (db : Db) : Db :=
  { db with
    database := update db.database (ns, databaseId)
      (some ⟨databaseId, databaseName, .provisional, some provisionalUntil⟩)
    databaseName := update db.databaseName (ns, databaseName) (some databaseId)
    databases := update db.databases ns (insert databaseId (db.databases ns))
    databaseLog := ⟨.created, ns, databaseName, databaseId⟩ :: db.databaseLog }

/-- The record becomes ready. -/
def stageDatabaseReady (ns : Ns) (database current : DatabaseRecord) (db : Db) : Db :=
  { db with
    database := update db.database (ns, database.databaseId)
      (some { current with state := .ready, provisionalUntil := none })
    databaseLog := ⟨.ready, ns, database.databaseName, database.databaseId⟩ :: db.databaseLog }

def commitDatabaseSession (ns : Ns) (databaseName databaseId : String) (provisionalUntil : ℕ) :
    SessionM (Verdict Db MetadataResult) := do
  watch [.database ns databaseId, .databaseName ns databaseName]
  let name ← read (.databaseName ns databaseName)
  let record ← read (.database ns databaseId)
  if name ≠ none then pure (.leave .nameExists)
  -- the identifier is taken: tried again, and refused in the end
  else if record ≠ none then pure .retry
  else pure (.commit (stageDatabaseCommit ns databaseName databaseId provisionalUntil) .ok)

def markReadySession (ns : Ns) (database : DatabaseRecord) :
    SessionM (Verdict Db MetadataResult) := do
  watch [.database ns database.databaseId, .databaseName ns database.databaseName]
  let current ← read (.database ns database.databaseId)
  let currentIdForName ← read (.databaseName ns database.databaseName)
  match current with
  | none => pure (.leave .notProvisional)
  | some c =>
    if c.databaseId ≠ database.databaseId ∨ c.state ≠ .provisional then
      pure (.leave .notProvisional)
    else if currentIdForName ≠ some database.databaseId then pure (.leave .aliasMismatch)
    else pure (.commit (stageDatabaseReady ns database c) .ok)

/-- Remove the record of a database, with its referrers and, if `named`, its name. -/
def stageDatabaseRemoval (ns : Ns) (database : DatabaseRecord) (change : DatabaseChange)
    (named : Bool) (db : Db) : Db :=
  { db with
    database := update db.database (ns, database.databaseId) none
    databaseReferrers := update db.databaseReferrers (ns, database.databaseId) ∅
    databases := update db.databases ns ((db.databases ns).erase database.databaseId)
    databaseName :=
      if named then update db.databaseName (ns, database.databaseName) none
      else db.databaseName
    databaseLog := ⟨change, ns, database.databaseName, database.databaseId⟩ :: db.databaseLog }

def rollbackProvisionalSession (ns : Ns) (database : DatabaseRecord) :
    SessionM (Verdict Db MetadataResult) := do
  watch [.database ns database.databaseId, .databaseName ns database.databaseName,
    .databaseReferrers ns database.databaseId]
  let current ← read (.database ns database.databaseId)
  let currentIdForName ← read (.databaseName ns database.databaseName)
  match current with
  | none => pure (.leave .notProvisional)
  | some c =>
    if c.databaseId ≠ database.databaseId ∨ c.state ≠ .provisional then
      pure (.leave .notProvisional)
    else pure (.commit
      (stageDatabaseRemoval ns database .rolledBack
        (currentIdForName = some database.databaseId)) .ok)

def deleteDatabaseSession (ns : Ns) (database : DatabaseRecord) : SessionM (Verdict Db Reply) := do
  watch [.database ns database.databaseId, .databaseName ns database.databaseName,
    .databaseReferrers ns database.databaseId]
  let current ← read (.database ns database.databaseId)
  let currentIdForName ← read (.databaseName ns database.databaseName)
  let referrers ← read (.databaseReferrers ns database.databaseId)
  match current with
  | none => .fail (.refused 404 "d1_database_not_found")
  | some c =>
    if c.databaseId ≠ database.databaseId ∨ c.state ≠ .ready then
      .fail (.refused 404 "d1_database_not_found")
    else if referrers ≠ ∅ then .fail (.refused 409 "d1_database_in_use")
    else pure (.commit
      (stageDatabaseRemoval ns database .deleted
        (currentIdForName = some database.databaseId)) .done)

def rollbackProvisionalDatabaseMetadata (i : ℕ) (ns : Ns) (database : DatabaseRecord) :
    ControlM MetadataResult :=
  optimistic i (.refused 503 "d1_database_create_contention")
    (rollbackProvisionalSession ns database)

/-- Whether the record is provisional and has been so for too long. -/
def isExpiredProvisional (database : DatabaseRecord) (now : ℕ) : Bool :=
  database.state = .provisional ∧ database.provisionalUntil.any (· ≤ now)

/-- How long a record may be provisional, in milliseconds. -/
def provisionalTtlMs : ℕ := 90 * 1000

/-- A record that was left provisional does not keep its name. -/
def makeRoom (i : ℕ) (ns : Ns) (databaseName : String) (now : ℕ) : ControlM Unit := do
  match ← readPlain (.databaseName ns databaseName) with
  | none => pure ()
  | some existingId => do
    match ← readPlain (.database ns existingId) with
    | none => .fail (.refused 409 "d1_database_exists")
    | some existing =>
      if isExpiredProvisional existing now then
        let _ ← rollbackProvisionalDatabaseMetadata i ns existing
      else .fail (.refused 409 "d1_database_exists")

/-- Take the provisional record back, and fail. -/
def abandonDatabase (i : ℕ) (ns : Ns) (database : DatabaseRecord) (e : Failure) :
    ControlM Reply := do
  let _ ← ((rollbackProvisionalDatabaseMetadata i ns database).attempt :
    ControlM (Except Failure MetadataResult))
  .fail e

/-- Create a database at the time `now`. `initialized` says whether its storage could be set
    up. -/
def createDatabase (i : ℕ) (ns : Ns) (databaseName databaseId : String) (now : ℕ)
    (initialized : Bool) : ControlM Reply := do
  makeRoom i ns databaseName now
  let database : DatabaseRecord :=
    ⟨databaseId, databaseName, .provisional, some (now + provisionalTtlMs)⟩
  match ← optimistic i (.refused 503 "d1_database_create_contention")
      (commitDatabaseSession ns databaseName databaseId (now + provisionalTtlMs)) with
  | .ok =>
    if initialized then
      let ready ← ((optimistic i (.refused 503 "contention")
        (markReadySession ns database)).attempt :
        ControlM (Except Failure MetadataResult))
      if ready = .ok .ok then pure .done
      else abandonDatabase i ns database (.refused 503 "d1_database_create_contention")
    else abandonDatabase i ns database (.refused 503 "d1_database_initialize_failed")
  | _ => .fail (.refused 409 "d1_database_exists")

def deleteDatabase (i : ℕ) (ns : Ns) (databaseRef : String) : ControlM Reply := do
  match ← resolveDatabaseRefFrom readPlain ns databaseRef with
  | none => .fail (.refused 404 "d1_database_not_found")
  | some database =>
    optimistic i (.refused 503 "d1_database_delete_contention") (deleteDatabaseSession ns database)

end Wdl.Control
