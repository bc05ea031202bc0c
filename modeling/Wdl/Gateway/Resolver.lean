import Wdl.Base.Lru
import Wdl.Gateway.Views

/-!
# The resolution of a key

`resolveNamespaceRoutes` and `resolveHostPatterns` are one algorithm on two designs. A call
looks for its key among the known keys and in the cache; what it does not find it reads from
Redis, and waits for the replies. Other calls and invalidations happen while it waits, so it
notes the epochs before it reads, and begins again when one of them has changed after the
replies arrived.

A state is what the gateway holds for one design, together with the calls that wait for their
replies. Between two waits a call runs alone, so each of the operations below is one event:
a call is made (`resolve`), Redis executes the next command of a call (`serve`), a call goes
on with its replies (`resume`), or its connection is lost (`fail`). Times are the numbers of
the events; they are noted with the answers, and decide nothing.
-/

namespace Wdl.Gateway

open Function

/-- `InFlightReadState`: the reads of a key that calls wait for. -/
structure ReadState where
  epoch : ℕ := 0
  readers : ℕ := 0
  deriving DecidableEq, Repr

/-- What a call waits for, with the epochs it noted. -/
inductive Await
  /-- The known keys, and what belongs to its key. -/
  | membership (resetEpoch membershipEpoch : ℕ)
  /-- What belongs to its key; `state` is the read state it shares with the other readers. -/
  | entry (resetEpoch state epoch : ℕ)
  deriving DecidableEq, Repr

/-- A call that waits. -/
structure Resolution where
  key : String
  /-- How often it began again. -/
  attempt : ℕ
  await : Await
  /-- The replies so far, in the order of its commands. -/
  replies : List Reply := []

/-- What becomes of a call. -/
inductive Outcome (V : Type)
  | known (view : V) (cacheHit : Bool)
  | unknown
  /-- `GatewayRoutingUnavailableError` -/
  | unavailable
  /-- The error of the connection. -/
  | failed

/-- The end of a call. -/
structure Answer (V : Type) where
  key : String
  outcome : Outcome V
  time : ℕ

/-- What the gateway holds for one design. -/
structure Side {V : Type} (D : Design V) where
  resetEpoch : ℕ := 0
  membershipEpoch : ℕ := 0
  /-- The known keys, once they were read. -/
  known : Option (List String) := none
  cache : Lru String V D.maxEntries := .empty _ _ _
  /-- The read states of the keys, each an object of its own. -/
  reads : String → Option ℕ := fun _ => none
  states : ℕ → ReadState := fun _ => {}
  /-- The next object. -/
  fresh : ℕ := 0
  calls : ℕ → Option Resolution := fun _ => none
  answers : List (Answer V) := []

def maxRoutingSnapshotAttempts : ℕ := 5

namespace Side

variable {V : Type} {D : Design V}

/-! ## Invalidation -/

/-- `clearRouteState` and `clearPatternState`. -/
@[simps]
def clearState (s : Side D) : Side D :=
  { s with
    resetEpoch := s.resetEpoch + 1
    membershipEpoch := s.membershipEpoch + 1
    cache := .empty _ _ _
    known := none }

/-- `invalidateKeyRead` -/
@[simps]
def invalidateKeyRead (s : Side D) (key : String) : Side D :=
  { s with
    states :=
      (s.reads key).elim s.states fun st =>
        update s.states st { s.states st with epoch := (s.states st).epoch + 1 } }

/-- What becomes of the known keys when a key is invalidated. -/
def invalidatedKnown (D : Design V) (key : String) (known : Option (List String)) :
    Option (List String) :=
  if D.addsKnown then known.map (key :: ·) else none

/-- A key is invalidated. -/
@[simps]
def invalidate (s : Side D) (key : String) : Side D :=
  { s.invalidateKeyRead key with
    membershipEpoch := s.membershipEpoch + 1
    cache := s.cache.delete key
    known := invalidatedKnown D key s.known }

/-! ## Calls -/

/-- One more call reads a key. -/
@[simps]
def joinKeyRead (s : Side D) (st : ℕ) : Side D :=
  { s with
    states :=
      update s.states st { s.states st with readers := (s.states st).readers + 1 } }

/-- A new read state for a key. -/
@[simps]
def newKeyRead (s : Side D) (key : String) : Side D :=
  { s with
    states := update s.states s.fresh {}
    reads := update s.reads key (some s.fresh)
    fresh := s.fresh + 1 }

/-- `beginKeyRead`, which also returns the read state. -/
def beginKeyRead (s : Side D) (key : String) : Side D × ℕ :=
  match s.reads key with
  | some st => (s.joinKeyRead st, st)
  | none => ((s.newKeyRead key).joinKeyRead s.fresh, s.fresh)

/-- `endKeyRead` -/
@[simps]
def endKeyRead (s : Side D) (key : String) (st : ℕ) : Side D :=
  { s with
    states :=
      update s.states st { s.states st with readers := (s.states st).readers - 1 }
    reads :=
      if (s.states st).readers - 1 = 0 then update s.reads key none else s.reads }

/-- A call waits. -/
@[simps]
def wait (s : Side D) (id : ℕ) (c : Resolution) : Side D :=
  { s with calls := update s.calls id (some c) }

/-- A call goes on. -/
@[simps]
def wake (s : Side D) (id : ℕ) : Side D :=
  { s with calls := update s.calls id none }

/-- A call ends. -/
@[simps]
def answer (s : Side D) (a : Answer V) : Side D := { s with answers := s.answers ++ [a] }

/-- What was read is kept in the cache, and is the answer of the call. -/
@[simps!]
def cacheView (s : Side D) (now : ℕ) (key : String) (view : V) : Side D :=
  { s with cache := s.cache.set key view }.answer ⟨key, .known view false, now⟩

/-- A call reads what belongs to its key, and waits for it. -/
def readEntry (s : Side D) (id : ℕ) (key : String) (attempt st : ℕ) : Side D :=
  s.wait id ⟨key, attempt, .entry s.resetEpoch st (s.states st).epoch, []⟩

/-- A call whose key is known. -/
def lookup (s : Side D) (now id : ℕ) (key : String) (attempt : ℕ) : Side D :=
  match h : s.cache.get? key with
  | some view =>
    { s with cache := s.cache.touch key view h }.answer ⟨key, .known view true, now⟩
  | none => (s.beginKeyRead key).1.readEntry id key attempt (s.beginKeyRead key).2

/-- The loop of a call, from the beginning of an attempt to the first wait. -/
def attempt (s : Side D) (now id : ℕ) (key : String) (attempt : ℕ) : Side D :=
  if maxRoutingSnapshotAttempts ≤ attempt then s.answer ⟨key, .unavailable, now⟩
  else
    match s.known with
    | none => s.wait id ⟨key, attempt, .membership s.resetEpoch s.membershipEpoch, []⟩
    | some known =>
      if key ∉ known then s.answer ⟨key, .unknown, now⟩
      else s.lookup now id key attempt

end Side

namespace Resolution

variable {V : Type} (D : Design V)

/-- The commands a call sent together. -/
def commands (c : Resolution) : List Command :=
  match c.await with
  | .membership _ _ => .sMembers D.membershipKey :: D.entryCommands c.key
  | .entry _ _ _ => D.entryCommands c.key

/-- The keys that the first reply lists. -/
def members (c : Resolution) : List String := (c.replies.head?.map Reply.asMembers).getD []

end Resolution

namespace Side

variable {V : Type} {D : Design V}

/-- A call has read the known keys and its entry, and neither epoch has changed. -/
def readMembership (s : Side D) (now : ℕ) (c : Resolution) : Side D :=
  if c.key ∉ c.members then
    { s with known := some c.members }.answer ⟨c.key, .unknown, now⟩
  else
    { s with known := some c.members }.cacheView now c.key (D.view c.replies.tail)

/-- A call goes on with its replies. -/
def proceed (s : Side D) (now id : ℕ) (c : Resolution) : Side D :=
  match c.await with
  | .membership resetEpoch membershipEpoch =>
    if resetEpoch ≠ s.resetEpoch ∨ membershipEpoch ≠ s.membershipEpoch then
      s.attempt now id c.key (c.attempt + 1)
    else s.readMembership now c
  | .entry resetEpoch st epoch =>
    if resetEpoch ≠ s.resetEpoch ∨ epoch ≠ (s.states st).epoch then
      (s.endKeyRead c.key st).attempt now id c.key (c.attempt + 1)
    else (s.cacheView now c.key (D.view c.replies)).endKeyRead c.key st

/-- The connection of a call is lost. -/
def reject (s : Side D) (now : ℕ) (c : Resolution) : Side D :=
  match c.await with
  | .membership _ _ => s.answer ⟨c.key, .failed, now⟩
  | .entry _ st _ => (s.endKeyRead c.key st).answer ⟨c.key, .failed, now⟩

end Side

/-- What can happen to the calls of a design. -/
inductive Op
  | resolve (id : ℕ) (key : String)
  | serve (id : ℕ)
  | resume (id : ℕ)
  | fail (id : ℕ)
  deriving DecidableEq, Repr

namespace Side

variable {V : Type} {D : Design V}

/-- A new call. -/
def resolve (s : Side D) (now id : ℕ) (key : String) : Option (Side D) :=
  if s.calls id = none then some (s.attempt now id key 0) else none

/-- Redis executes the next command of a call. -/
def serve (s : Side D) (redis : Redis) (id : ℕ) : Option (Side D) := do
  let c ← s.calls id
  let command ← (c.commands D)[c.replies.length]?
  return s.wait id { c with replies := c.replies ++ [redis.reply command] }

/-- A call that has all its replies goes on. -/
def resume (s : Side D) (now id : ℕ) : Option (Side D) := do
  let c ← s.calls id
  if c.replies.length = (c.commands D).length then some ((s.wake id).proceed now id c) else none

/-- A call that waits fails. -/
def fail (s : Side D) (now id : ℕ) : Option (Side D) := do
  let c ← s.calls id
  return (s.wake id).reject now c

/-- An event of the calls of a design. -/
def step (s : Side D) (redis : Redis) (now : ℕ) : Op → Option (Side D)
  | .resolve id key => s.resolve now id key
  | .serve id => s.serve redis id
  | .resume id => s.resume now id
  | .fail id => s.fail now id

end Side

end Wdl.Gateway
