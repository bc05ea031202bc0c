import Wdl.Shared.Names
import Mathlib.Data.List.Sort

/-!
# What the gateway reads

The gateway routes a request by the routes of a namespace, or by the patterns of a host. Both
are read from Redis with a few commands that are sent together but are not atomic, and both
are kept in a cache. The two caches work alike and differ in what is read for a key, in what
is made of it, in which invalidations are taken for valid, and in what an invalidation does to
the set of the known keys: this is a `Design`, and `routes` and `patterns` are the two of them.
-/

namespace Wdl.Gateway

/-! ## Redis -/

/-- What the gateway sees of Redis: sets and hashes. -/
structure Redis where
  sets : String → List String
  hashes : String → List (String × String)

/-- The commands of the gateway. -/
inductive Command
  | sMembers (key : String)
  | hGetAll (key : String)
  deriving DecidableEq

/-- What Redis replies. -/
inductive Reply
  | members (value : List String)
  | hash (value : List (String × String))
  deriving DecidableEq

def Redis.reply (redis : Redis) : Command → Reply
  | .sMembers key => .members (redis.sets key)
  | .hGetAll key => .hash (redis.hashes key)

/-- The members in a reply. -/
def Reply.asMembers : Reply → List String
  | .members value => value
  | .hash _ => []

/-- The fields in a reply. -/
def Reply.asHash : Reply → List (String × String)
  | .members _ => []
  | .hash value => value

def namespacesKey : String := "namespaces"

def declaredHostsKey : String := "declared-hosts"

def routesKey (ns : String) : String := "routes:" ++ ns

def platformDomainDisabledKey (ns : String) : String := "platform-domain-disabled:" ++ ns

def patternsKey (host : String) : String := "patterns:" ++ host

/-! ## Patterns -/

/-- Whether a pattern matches a whole path, or how it begins. -/
inductive PatternKind
  | exactPath
  | prefixPath
  deriving DecidableEq, Repr

/-- A pattern of a host. -/
structure PatternEntry where
  slot : String
  ns : String
  worker : String
  version : String
  kind : PatternKind
  value : String
  deriving DecidableEq, Repr

/-- The parts of a text between the separators. -/
def splitOnChar (c : Char) : List Char → List (List Char)
  | [] => [[]]
  | x :: xs =>
    if x = c then [] :: splitOnChar c xs
    else
      match splitOnChar c xs with
      | [] => [[x]]
      | part :: parts => (x :: part) :: parts

def patternProjectionVersion : String := "v2"

def decodePatternKind : String → Option PatternKind
  | "exact" => some .exactPath
  | "prefix" => some .prefixPath
  | _ => none

/-- `decodePatternProjection`, with the slot of the pattern. -/
def decodePatternProjection (slot raw : String) : Option PatternEntry :=
  match (splitOnChar '\t' raw.toList).map String.ofList with
  | [tag, ns, worker, version, kind, value] =>
    if tag ≠ patternProjectionVersion ∨ ns = "" ∨ worker = "" ∨ version = "" ∨ value = "" then none
    else (decodePatternKind kind).map fun kind => ⟨slot, ns, worker, version, kind, value⟩
  | _ => none

/-- A longer pattern comes first, and of two of one length the exact one. -/
def PatternEntry.before (a b : PatternEntry) : Prop :=
  utf16Length b.value < utf16Length a.value ∨
    (utf16Length a.value = utf16Length b.value ∧ (a.kind = .exactPath ∨ b.kind = .prefixPath))

instance : DecidableRel PatternEntry.before :=
  fun _ _ => inferInstanceAs (Decidable (_ ∨ _))

/-- `sortPatterns`. What cannot be read, or is not in a namespace that may be routed to, is
    dropped. -/
def sortPatterns (entries : List (String × String)) : List PatternEntry :=
  (entries.filterMap fun e =>
    (decodePatternProjection e.1 e.2).filter fun p => isValidRouteNs p.ns).insertionSort
      PatternEntry.before

/-! ## The two caches -/

/-- The texts that `normalizeRequestHost` leaves as they are: those without a dot at the end. -/
def isNormalizedHost (host : String) : Bool := host.toList.getLast? ≠ some '.'

/-- White space, as a regular expression sees it. -/
def isSpace (c : Char) : Bool :=
  (9 ≤ c.toNat && c.toNat ≤ 13) || (0x2000 ≤ c.toNat && c.toNat ≤ 0x200a) ||
    decide (c.toNat ∈ [0x20, 0xa0, 0x1680, 0x2028, 0x2029, 0x202f, 0x205f, 0x3000, 0xfeff])

/-- The hosts of messages are ASCII, where `toLowerCase` of the source is `Char.toLower`. -/
def isPatternInvalidationKey (host : String) : Bool :=
  decide (host ≠ "") && host.toList.all (fun c => c.toLower = c) && isNormalizedHost host &&
    host.toList.all (fun c => c ≠ ':' && c ≠ '/' && !isSpace c)

/-- How a cache of views is filled and invalidated. -/
structure Design (V : Type) where
  /-- The set of the known keys. -/
  membershipKey : String
  /-- What is read for one key. -/
  entryCommands : String → List Command
  /-- What is made of the replies. -/
  view : List Reply → V
  /-- Whether the payload of an invalidation is a key. -/
  isKey : String → Bool
  /-- Whether an invalidation makes its key known, and does not forget which keys are. -/
  addsKnown : Bool
  maxEntries : ℕ

/-- `cacheNsRoutes`: the routes without those of the workers that opted out. -/
def nsRoutes (entries : List (String × String)) (disabled : List String) : List (String × String) :=
  entries.filter fun e => e.1 ∉ disabled

/-- The cache of the routes of namespaces. -/
def routes : Design (List (String × String)) where
  membershipKey := namespacesKey
  entryCommands ns := [.hGetAll (routesKey ns), .sMembers (platformDomainDisabledKey ns)]
  view replies :=
    nsRoutes ((replies.head?.map Reply.asHash).getD [])
      ((replies.tail.head?.map Reply.asMembers).getD [])
  isKey := isValidRouteNs
  addsKnown := true
  maxEntries := 10000

/-- The cache of the patterns of hosts. -/
def patterns : Design (List PatternEntry) where
  membershipKey := declaredHostsKey
  entryCommands host := [.hGetAll (patternsKey host)]
  view replies := sortPatterns ((replies.head?.map Reply.asHash).getD [])
  isKey := isPatternInvalidationKey
  addsKnown := false
  maxEntries := 10000

end Wdl.Gateway
