import Wdl.Control.Indexes

/-!
# Requests of the control plane

A request of the control plane is a process: it makes single commands, and runs sessions
that watch keys, read them and commit their writes together. Sessions and processes fail
with the status and the code of the answer, or with one of the signals that are caught on
the way.
-/

namespace Wdl.Control

open Function

/-- Why a request, or a session of it, ends early. -/
inductive Failure
  /-- The request is refused with this status and code. -/
  | refused (status : ℕ) (code : String)
  /-- A watched key was seen to change: `WatchError`. -/
  | watchError
  /-- What was collected does not agree with what is there: `DriftSignal`. -/
  | drift
  /-- There is nothing to do: `SecretNoop`. -/
  | noop
  deriving DecidableEq, Repr

/-! ## Sessions -/

/-- A session of the control plane. -/
abbrev SessionM := Session keyed Failure

def watch (ks : List Key) : SessionM Unit := Prog.perform (I := Query.interface keyed) (.watch ks)

def read (k : Key) : SessionM k.Val := Prog.perform (I := Query.interface keyed) (.read k)

/-- Go through the keys of the queue consumers of a namespace. -/
def scanQueueConsumers (ns : Ns) : SessionM (List Key) :=
  Prog.perform (I := Query.interface keyed) (.scan fun
    | .queueConsumer ns' _ => ns' = ns
    | _ => false)

/-- Refuse the request if `c`. -/
def refuseIf (c : Prop) [Decidable c] (e : Failure) : SessionM Unit :=
  if c then .fail e else .ret ()

/-- Go on with the value, or fail with the error. -/
def ofExcept {α : Type} : Except Failure α → SessionM α
  | .ok a => .ret a
  | .error e => .fail e

/-- A change of a watched key that the session has seen is as good as a refused commit. -/
def retrying {α : Type} (p : SessionM (Verdict Db α)) : SessionM (Verdict Db α) :=
  (p.attempt : SessionM (Except Failure (Verdict Db α))).bind fun
    | .ok v => .ret v
    | .error .watchError => .ret .retry
    | .error e => .fail e

/-! ## Processes -/

/-- The single commands of requests. -/
inductive Command
  /-- The process `i` takes the next version number of a worker. -/
  | incrNextVersion (i : ℕ) (w : WorkerId)
  /-- Take the delete lock, if it is free. -/
  | acquireDeleteLock (w : WorkerId) (token : LockToken)
  /-- Make the delete lock last longer, if it is still ours. -/
  | renewDeleteLock (w : WorkerId) (token : LockToken)
  /-- Give the delete lock back, if it is still ours. -/
  | releaseDeleteLock (w : WorkerId) (token : LockToken)

/-- The single commands and their answers. -/
abbrev Command.interface : Interface where
  Call := Command
  Ans
    | .incrNextVersion _ _ => ℕ
    | .acquireDeleteLock _ _ => Bool
    | .renewDeleteLock _ _ => Bool
    | .releaseDeleteLock _ _ => Unit

/-- What a single command does. -/
def Command.Step : (c : Command.interface.Call) → Db → Command.interface.Ans c → Db → Prop
  | .incrNextVersion i w, db, n, db' =>
    n = db.nextVersion w + 1 ∧ db' = { db with
      nextVersion := update db.nextVersion w n
      holder := update db.holder (w.1, w.2, n) (some i) }
  | .acquireDeleteLock w token, db, ok, db' =>
    (db.deleteLock w = none ∧ ok = true ∧
        db' = { db with deleteLock := update db.deleteLock w (some token) }) ∨
      (db.deleteLock w ≠ none ∧ ok = false ∧ db' = db)
  | .renewDeleteLock w token, db, ok, db' => ok = (db.deleteLock w = some token : Bool) ∧ db' = db
  | .releaseDeleteLock w token, db, _, db' =>
    db' = if db.deleteLock w = some token then
        { db with deleteLock := update db.deleteLock w none }
      else db

/-- The requests of the control plane to the store. -/
abbrev api : Interface := Request.interface keyed Command.interface

/-- A process of the control plane. -/
abbrev ControlM := Prog api Failure

def incrNextVersion (i : ℕ) (w : WorkerId) : ControlM ℕ :=
  Prog.perform (I := api) (.command (.incrNextVersion i w))

def acquireDeleteLock (w : WorkerId) (token : LockToken) : ControlM Bool :=
  Prog.perform (I := api) (.command (.acquireDeleteLock w token))

def renewDeleteLock (w : WorkerId) (token : LockToken) : ControlM Bool :=
  Prog.perform (I := api) (.command (.renewDeleteLock w token))

def releaseDeleteLock (w : WorkerId) (token : LockToken) : ControlM Unit :=
  Prog.perform (I := api) (.command (.releaseDeleteLock w token))

/-- A read outside of a session. -/
def readPlain (k : Key) : ControlM k.Val := Prog.perform (I := api) (.read k)

/-- What a request of the control plane answers. -/
inductive Reply
  /-- A version is active, in this mode and with this sequence number. -/
  | activated (version : Version) (mode : SessionMode) (restartSequence : ℕ)
  /-- The request is done. -/
  | done
  /-- There was nothing to do. -/
  | unchanged
  deriving DecidableEq, Repr

/-- How often a transaction is tried. -/
def maxAttempts : ℕ := 5

/-- Run a transaction, and answer with `exhausted` when its commit is refused too often. -/
def optimistic {α : Type} (i : ℕ) (exhausted : Failure) (body : SessionM (Verdict Db α)) :
    ControlM α :=
  runOptimistic i (retrying body) (.fail exhausted) maxAttempts

end Wdl.Control
