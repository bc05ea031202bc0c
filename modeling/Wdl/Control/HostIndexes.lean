import Wdl.Base.Revision
import Wdl.Control.Commits

/-!
# The indexes of declared hosts

Which hosts a namespace has declared is stored with the namespace. Two indexes are derived from
it: the namespaces that have declared a host, and the set of all declared hosts. A reconcile of
the hosts of a namespace changes the declarations and the indexes together, and increments a
revision. The indexes can also be rebuilt from the declarations: a rebuild scans for all of them,
and watches nothing but the revision.

The database is the one of the control plane, with the revision.
-/

namespace Wdl.Control

/-- Which keys exist, as far as they are scanned for: Redis has no empty sets. -/
def hostPresent (db : Db) : Key → Prop
  | .hosts ns => (db.hosts ns).Nonempty
  | .hostDeclarations host => (db.hostDeclarations host).Nonempty
  | _ => True

/-- The keys of the database with the revision of the declared hosts. -/
abbrev revisedKeyed : Keyed (Db × ℕ) := keyed.revised hostPresent

/-- A session that rebuilds the indexes. -/
abbrev RebuildM := Session revisedKeyed Failure

/-- Watch the revision. -/
def watchRevision : RebuildM Unit :=
  Prog.perform (I := Query.interface revisedKeyed) (.watch [none])

/-- The hosts of a namespace. -/
def readHosts (ns : Ns) : RebuildM (Finset Host) :=
  Prog.perform (I := Query.interface revisedKeyed) (.read (some (.hosts ns)))

/-! ## Rebuilding -/

def declaredHostRebuildMaxEntries : ℕ := 10000

def declaredHostRebuildMaxAttempts : ℕ := 5

def declaredHostRebuildLimitError : Failure :=
  .refused 500 "declared host rebuild exceeds 10000 entries"

/-- The namespace of a key of declarations. -/
def namespaceFromHostsKey : Option Key → Option Ns
  | some (.hosts ns) => some ns
  | _ => none

/-- The host of a key of the index by host. -/
def hostFromDeclarationsKey : Option Key → Option Host
  | some (.hostDeclarations host) => some host
  | _ => none

/-- Go through the keys of a kind, without repetitions and up to a limit. -/
def scanKeys (part : Option Key → Option String) (maxEntries : ℕ) : RebuildM (List String) := do
  let found ← (Prog.perform (I := Query.interface revisedKeyed)
    (.scan fun key => (part key).isSome) : RebuildM (List (Option Key)))
  let keys := (found.filterMap part).eraseDups
  if maxEntries < keys.length then .fail declaredHostRebuildLimitError else .ret keys

/-- The namespaces that have declared a host, among those that were read. -/
def declarationsByHost (members : List (Ns × Finset Host)) (host : Host) : Finset Ns :=
  ((members.filter fun m => host ∈ m.2 ∧ host ≠ "").map Prod.fst).toFinset

/-- The hosts that were read. -/
def declaredBy (members : List (Ns × Finset Host)) : Finset Host :=
  members.foldr (fun m hosts => m.2.erase "" ∪ hosts) ∅

/-- The writes of a rebuild: the old keys are deleted, and what was read is added. -/
def stageRebuild (members : List (Ns × Finset Host)) (oldDeclarationKeys : List Host)
    (db : Db) : Db :=
  { db with
    declaredHosts := declaredBy members
    hostDeclarations := fun host =>
      (if host ∈ oldDeclarationKeys then ∅ else db.hostDeclarations host) ∪
        declarationsByHost members host }

def rebuildSession : RebuildM (Verdict (Db × ℕ) Reply) := do
  watchRevision
  let hostKeys ← scanKeys namespaceFromHostsKey declaredHostRebuildMaxEntries
  let oldDeclarationKeys ← scanKeys hostFromDeclarationsKey
    (declaredHostRebuildMaxEntries - hostKeys.length)
  let hostScopes := hostKeys.filter (· ≠ "")
  let cardinalities ← Prog.forEach hostScopes fun ns => do
    let hosts ← readHosts ns
    pure hosts.card
  -- the limit is checked after every batch, and the counts only grow
  if declaredHostRebuildMaxEntries <
      hostKeys.length + oldDeclarationKeys.length + cardinalities.foldl (· + ·) 0 then
    .fail declaredHostRebuildLimitError
  else do
    let members ← Prog.forEach hostScopes fun ns => do
      let hosts ← readHosts ns
      pure (ns, hosts)
    pure (.commit (fun s => (stageRebuild members oldDeclarationKeys s.1, s.2)) .done)

/-! ## The system -/

/-- No single commands are used. -/
abbrev noCommands : Interface := ⟨Empty, fun _ => Unit⟩

def noCommand (c : noCommands.Call) (_ : Db × ℕ) (_ : noCommands.Ans c) (_ : Db × ℕ) :
    Prop := c.elim

/-- The requests to the store. -/
abbrev hostsApi : Interface := Request.interface revisedKeyed noCommands

def rebuildDeclaredHostIndexes (i : ℕ) : Prog hostsApi Failure Reply :=
  runOptimistic i rebuildSession
    (.fail (.refused 500 "declared host indexes changed throughout rebuild"))
    declaredHostRebuildMaxAttempts

/-- A reconcile of the hosts of a namespace, which increments the revision. No host and no
    namespace has an empty name. -/
def reconcileHostsRevised (i : ℕ) (ns : Ns) (hosts : Finset Host) : Prog hostsApi Failure Reply :=
  if ns = "" ∨ "" ∈ hosts then .fail (.refused 400 "invalid_request")
  else
    runOptimistic i ((retrying (reconcileSession ns hosts)).revise hostPresent)
      (.fail (.refused 503 "hosts_reconcile_contention")) maxAttempts

/-- What the processes do. -/
inductive HostsKind
  | reconcile (ns : Ns) (hosts : Finset Host)
  | rebuild

/-- Any number of reconciles and rebuilds. -/
def hostsSystem : System hostsApi (Shared revisedKeyed) HostsKind Failure Reply Empty where
  body
    | i, .reconcile ns hosts => reconcileHostsRevised i ns hosts
    | i, .rebuild => rebuildDeclaredHostIndexes i
  call := Request.Step noCommand
  env e _ _ := e.elim

abbrev HostsWorld := World hostsApi (Shared revisedKeyed) HostsKind Failure Reply

/-- The indexes mirror the declarations. -/
structure Mirrored (db : Db) : Prop where
  declarations : ∀ host ns, ns ∈ db.hostDeclarations host ↔ host ∈ db.hosts ns
  declared : ∀ host, host ∈ db.declaredHosts ↔ (db.hostDeclarations host).Nonempty
  /-- No host and no namespace has an empty name. -/
  named : ∀ ns host, host ∈ db.hosts ns → ns ≠ "" ∧ host ≠ ""

end Wdl.Control
