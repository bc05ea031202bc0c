import Wdl.Auth.Policy
import Wdl.Base.Optimistic

/-!
# What the auth service stores

The record of each token, an index from hashes to the ids of the tokens, one lock for each
pair of an issuer and a template, and, kept by the control plane, the set of the namespaces.
Records are never deleted: a token that is revoked or found expired loses its entry in the
index.

`Db` also has the time, which every process reads from the same clock, and whether the store
can be reached, which changes at any time. Its last field is stored nowhere: it is a log of
the lookups of tokens, of what was found about their expiry, of the revocations and of the
delegated issues, for stating what comes before what.
-/

namespace Wdl.Auth

open Function

/-- An issuer and the id of a template. -/
abbrev LockKey := TokenId × String

/-- What the log tells. -/
inductive Event
  /-- The process looked a hash up at a time, and found this. -/
  | lookup (process : ℕ) (hash : TokenHash) (found : Option (TokenId × Option TokenRecord))
      (clock : ℕ)
  /-- The process looked at the time, and whether the token it had looked up has expired. -/
  | checked (process : ℕ) (id : TokenId) (expired : Bool)
  /-- The process revoked a token, and whether it removed an entry of the index. -/
  | revoked (process : ℕ) (id : TokenId) (collapsed : Bool)
  /-- A token was issued by an issuer under a template. -/
  | delegated (issuer : TokenId) (template : String) (id : TokenId)
  deriving DecidableEq

/-- The store. -/
structure Db where
  /-- `auth:token:<id>`. -/
  records : TokenId → Option TokenRecord
  /-- `auth:hash:<hash>`. -/
  index : TokenHash → Option TokenId
  /-- `auth:delegated-issue-lock:<issuer>:<template>`, with the process that took the lock. -/
  locks : LockKey → Option ℕ
  /-- The namespaces of the control plane. -/
  namespaces : Ns → Bool
  /-- The time. -/
  clock : ℕ
  /-- Whether the store cannot be reached. -/
  unreachable : Bool
  /-- What has happened. -/
  log : List Event

namespace Db

/-- A store that holds nothing. -/
def empty : Db where
  records _ := none
  index _ := none
  locks _ := none
  namespaces _ := false
  clock := 0
  unreachable := false
  log := []

/-- `HSET` of fields of a record. -/
@[simps] def setFields (db : Db) (id : TokenId) (f : TokenRecord → TokenRecord) : Db :=
  { db with records := update db.records id ((db.records id).map f) }

/-- `HSET` of a whole record. -/
@[simps] def putRecord (db : Db) (id : TokenId) (record : TokenRecord) : Db :=
  { db with records := update db.records id (some record) }

/-- `SET` of an entry of the index. -/
@[simps] def setIndex (db : Db) (hash : TokenHash) (id : TokenId) : Db :=
  { db with index := update db.index hash (some id) }

/-- `DEL` of an entry of the index. -/
@[simps] def delIndex (db : Db) (hash : TokenHash) : Db :=
  { db with index := update db.index hash none }

/-- The lock is taken, or given back. -/
@[simps] def setLock (db : Db) (key : LockKey) (owner : Option ℕ) : Db :=
  { db with locks := update db.locks key owner }

/-- Something is added to the log. -/
@[simps] def note (db : Db) (e : Event) : Db := { db with log := db.log ++ [e] }

/-- `READ_TOKEN_BY_HASH_SCRIPT`: the id behind a hash, and its record. -/
def readRecordByHash (db : Db) (hash : TokenHash) : Option (TokenId × Option TokenRecord) :=
  (db.index hash).map fun id => (id, db.records id)

end Db

/-! ## Keys -/

/-- The keys, with the clock and the reachability of the store as keys that are only read. -/
inductive Key
  | record (id : TokenId)
  | index (hash : TokenHash)
  | lock (key : LockKey)
  | namespaces
  | clock
  | unreachable

/-- What is read at a key. -/
abbrev Key.Val : Key → Type
  | record _ => Option TokenRecord
  | index _ => Option TokenId
  | lock _ => Option ℕ
  | namespaces => Ns → Bool
  | clock => ℕ
  | unreachable => Bool

/-- How the store is read. -/
abbrev keyed : Keyed Db where
  Key := Key
  Val := Key.Val
  get db
    | .record id => db.records id
    | .index hash => db.index hash
    | .lock key => db.locks key
    | .namespaces => db.namespaces
    | .clock => db.clock
    | .unreachable => db.unreachable
  Present db
    | .record id => (db.records id).isSome
    | .index hash => (db.index hash).isSome
    | .lock key => (db.locks key).isSome
    | _ => True

end Wdl.Auth
