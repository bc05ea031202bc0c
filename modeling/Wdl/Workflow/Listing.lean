import Wdl.Base.Json
import Wdl.Workflow.Errors
import Mathlib.Data.Nat.Digits.Defs

/-!
# Listing the instances of a workflow

`list_instances` answers one page of the instances of a workflow. The instances are in a sorted
set, the by-workflow index, and a cursor is a rank of it, written in decimal. A page is made of
the entries of the index from the cursor on: it leaves out those that have no state, or one that
is still being created, and it ends early when its response would become too long.

Here the state and the payloads of an instance are the hashes that the service reads, field by
field, under the texts of their keys. The JSON library is a parameter (`SerdeJson`): how a
payload is parsed, and how a value is printed. A pending create that has expired is removed on
the way, so a call also has a store as its result.
-/

namespace Wdl.Workflow.Listing

/-! ## JSON and keys -/

/-- The JSON library: parsing a text, with the error it reports, and printing a value. -/
structure SerdeJson where
  fromStr : String → Except String Json
  toText : Json → String

/-- A character of a JSON string. -/
def escapeChar (c : Char) : List Char :=
  if c = '"' then ['\\', '"']
  else if c = '\\' then ['\\', '\\']
  else if c = '\n' then ['\\', 'n']
  else if c = '\r' then ['\\', 'r']
  else if c = '\t' then ['\\', 't']
  else if c.toNat = 8 then ['\\', 'b']
  else if c.toNat = 12 then ['\\', 'f']
  else if c.toNat < 32 then
    ['\\', 'u', '0', '0', Nat.digitChar (c.toNat / 16), Nat.digitChar (c.toNat % 16)]
  else [c]

/-- A text as a JSON string. -/
def quote (s : String) : String := "\"" ++ String.ofList (s.toList.flatMap escapeChar) ++ "\""

/-- The fields of a hash, as `HGETALL` returns them. -/
abbrev Fields := List (String × String)

/-- The value of a field. -/
def Fields.get (fields : Fields) (name : String) : Option String := fields.lookup name

/-- The scope that the keys of an instance share. -/
def instanceScope (ns workflowKey instanceId : String) : String :=
  "\x7b" ++ ns ++ ":" ++ workflowKey ++ ":" ++ instanceId ++ "\x7d"

def stateKey (scope : String) : String := "wf:instance:" ++ scope ++ ":state"

def payloadsKey (scope : String) : String := "wf:instance:" ++ scope ++ ":payloads"

/-- The largest rank of a sorted set, a signed integer of 64 bits. -/
def i64Max : ℕ := 2 ^ 63 - 1

/-- The largest natural number of 64 bits. -/
def u64Max : ℕ := 2 ^ 64 - 1

def saturatingAdd (a b : ℕ) : ℕ := min (a + b) u64Max

/-- What a listing reads: the by-workflow index of the workflow, by rank, and the hashes of state
    and of payloads. -/
structure Store where
  index : List String
  nodup : index.Nodup
  length_le : index.length ≤ i64Max
  states : String → Fields
  payloads : String → Fields

/-- `ZRANGE` of ranks, the last one included. -/
def Store.zrange (s : Store) (start stop : ℕ) : List String :=
  (s.index.drop start).take (stop + 1 - start)

/-- The workflow that a request names, and whether its identity and its definition are
    accepted. -/
structure WorkflowRequest where
  ns : String
  workflowKey : String
  verify : Except WorkflowError Unit

def WorkflowRequest.scope (req : WorkflowRequest) (id : String) : String :=
  instanceScope req.ns req.workflowKey id

/-! ## Options -/

def defaultInstancesLimit : ℕ := 100

def maxInstancesLimit : ℕ := 1000

/-- `str::parse::<u64>`: decimal digits, after at most one plus sign. -/
def parseU64 (raw : String) : Option ℕ :=
  let digits := if raw.toList.head? = some '+' then raw.toList.tail else raw.toList
  if digits ≠ [] ∧ digits.all Char.isDigit ∧ Nat.ofDigitChars 10 digits 0 ≤ u64Max then
    some (Nat.ofDigitChars 10 digits 0)
  else none

def parseLimit (options : Json) : Except WorkflowError ℕ :=
  match options.get "limit" with
  | none => .ok defaultInstancesLimit
  | some raw =>
    match raw.asUInt64 with
    | none => .error (.invalidRequest "instances limit must be an integer")
    | some value =>
      if 1 ≤ value ∧ value ≤ maxInstancesLimit then .ok value
      else .error (.requestTooLarge "instances limit must be in [1, 1000]")

def parseCursor (options : Json) : Except WorkflowError ℕ :=
  match options.get "cursor" with
  | none => .ok 0
  | some raw =>
    match raw.asStr with
    | none => .error (.invalidRequest "instances cursor must be a string")
    | some raw =>
      if raw.isEmpty then .ok 0
      else
        match parseU64 raw with
        | none => .error (.invalidRequest "instances cursor is invalid")
        | some cursor => .ok cursor

/-- The limit and the cursor of a request. -/
def workflowInstancesOptions (options : Json) : Except WorkflowError (ℕ × ℕ) := do
  let limit ← parseLimit options
  let cursor ← parseCursor options
  return (limit, cursor)

/-! ## Creates that are pending -/

def isPendingCreate (state : Fields) : Bool := state.get "status" == some "pending_create"

/-- `str::parse::<i64>`: decimal digits, after at most one sign. -/
def parseI64 (raw : String) : Option ℤ :=
  if raw.toList.head? = some '-' then
    if raw.toList.tail ≠ [] ∧ raw.toList.tail.all Char.isDigit ∧
        Nat.ofDigitChars 10 raw.toList.tail 0 ≤ i64Max + 1 then
      some (-(Nat.ofDigitChars 10 raw.toList.tail 0 : ℕ))
    else none
  else (parseU64 raw).bind fun n => if n ≤ i64Max then some (n : ℤ) else none

def pendingCreateExpired (state : Fields) (now : ℤ) : Bool :=
  match (state.get "pendingExpiresAtMs").bind parseI64 with
  | none => true
  | some expiresAt => decide (expiresAt ≤ now)

/-- A field that the identity of an instance needs. -/
def identityField (state : Fields) (name : String) : Except WorkflowError String :=
  match state.get name with
  | none => .error (.invalidState ("Workflow state missing " ++ name))
  | some value => .ok value

/-- The scope of the instance that a state names, if its identity is complete. -/
def identityFromState (ns workflowKey instanceId : String) (state : Fields) :
    Except WorkflowError String := do
  let storedNs ← identityField state "ns"
  let storedWorkflowKey ← identityField state "workflowKey"
  let storedInstanceId ← identityField state "instanceId"
  if storedNs ≠ ns ∨ storedWorkflowKey ≠ workflowKey ∨ storedInstanceId ≠ instanceId then
    throw (.invalidState "Workflow ready token does not match instance state")
  let _ ← identityField state "worker"
  let _ ← identityField state "frozenVersion"
  let _ ← identityField state "workflowName"
  let _ ← identityField state "className"
  let _ ← identityField state "generation"
  let _ ← identityField state "createdAtMs"
  return instanceScope storedNs storedWorkflowKey storedInstanceId

/-- The instance whose pending create is removed, and the token of that create. -/
def pendingCreateCleanupFromState (existing : Fields) : Except WorkflowError (String × String) := do
  let scope ← identityFromState ((existing.get "ns").getD "") ((existing.get "workflowKey").getD "")
    ((existing.get "instanceId").getD "") existing
  match existing.get "pendingCreateToken" with
  | none => throw (.invalidState "Workflow pending create token is missing")
  | some token => return (scope, token)

/-- The script that removes a pending create: it deletes the keys of the instance, of which a
    listing reads the state and the payloads, if the create is still the one with the token. -/
def cleanupPendingCreate (scope token : String) (s : Store) : Store :=
  let state := s.states (stateKey scope)
  if state.get "generation" = some "1" ∧ isPendingCreate state ∧
      state.get "pendingCreateToken" = some token then
    { s with
      states := fun key => if key = stateKey scope then [] else s.states key
      payloads := fun key => if key = payloadsKey scope then [] else s.payloads key }
  else s

def cleanupExpiredPendingCreate (now : ℤ) (existing : Fields) (s : Store) :
    Except WorkflowError Store :=
  if !isPendingCreate existing || !pendingCreateExpired existing now then .ok s
  else do
    let pending ← pendingCreateCleanupFromState existing
    return cleanupPendingCreate pending.1 pending.2 s

/-- The state as the public sees it: an instance that is being created has none yet. -/
def publicStateOrEmpty (now : ℤ) (existing : Fields) (s : Store) :
    Except WorkflowError (Fields × Store) :=
  if !isPendingCreate existing then .ok (existing, s)
  else do
    let s ← cleanupExpiredPendingCreate now existing s
    return ([], s)

/-! ## Instances -/

/-- An instance as it is answered. -/
structure InstanceResponse where
  id : String
  status : String
  output : Option Json
  error : Option Json

/-- The text of an optional value. -/
def optionText (serde : SerdeJson) : Option Json → String
  | none => "null"
  | some value => serde.toText value

/-- The text of an instance. -/
def InstanceResponse.toRawValue (serde : SerdeJson) (inst : InstanceResponse) : String :=
  "\x7b\"id\":" ++ quote inst.id ++ ",\"status\":" ++ quote inst.status ++
    ",\"output\":" ++ optionText serde inst.output ++
    ",\"error\":" ++ optionText serde inst.error ++ "\x7d"

inductive InstancePayloadField
  | output | error
  deriving DecidableEq

/-- The reading of a payload of one of the instances of a page. -/
structure InstancePayloadRead where
  instanceIndex : ℕ
  field : InstancePayloadField
  payloadsKey : String
  payloadRef : String

/-- An error with its code and its message. -/
def errorValue (code message : String) : Json :=
  .obj [("name", .str "WorkflowError"), ("code", .str code), ("message", .str message)]

/-- The error that a state holds in place. -/
def inlineErrorFromState (state : Fields) : Option Json := do
  let code ← state.get "errorCode"
  return errorValue code ((state.get "errorMessage").getD code)

/-- The key of the payloads of an instance, which its state has to name. -/
def canonicalInstancePayloadsKey (state : Fields) (req : WorkflowRequest) (id : String) :
    Except WorkflowError String :=
  if state.get "ns" ≠ some req.ns ∨ state.get "workflowKey" ≠ some req.workflowKey ∨
      state.get "instanceId" ≠ some id then
    .error (.invalidState "Workflow state identity does not match the requested instance")
  else if state.get "payloadsKey" ≠ some (payloadsKey (req.scope id)) then
    .error (.invalidState "Workflow payload storage key is invalid")
  else .ok (payloadsKey (req.scope id))

/-- The payload that a field of a state refers to. -/
def payloadRead (state : Fields) (key : String) (instanceIndex : ℕ) (name : String)
    (field : InstancePayloadField) : List InstancePayloadRead :=
  match state.get name with
  | none => []
  | some payloadRef => [⟨instanceIndex, field, key, payloadRef⟩]

/-- An instance of the page without its payloads, and the payloads it needs. -/
def prepareListInstance (req : WorkflowRequest) (id : String) (state : Fields)
    (instanceIndex : ℕ) : Except WorkflowError (InstanceResponse × List InstancePayloadRead) :=
  match state.get "status" with
  | none => .error (.notFound "Workflow instance not found")
  | some status => do
    let key ← canonicalInstancePayloadsKey state req id
    let payloadReads := payloadRead state key instanceIndex "outputRef" .output ++
      payloadRead state key instanceIndex "errorRef" .error
    let error := if (state.get "errorRef").isSome then none else inlineErrorFromState state
    return (⟨id, status, none, error⟩, payloadReads)

def maxWorkflowResultBytes : ℕ := 1024 * 1024

def truncateChars (input : String) (maxChars : ℕ) : String :=
  String.ofList (input.toList.take maxChars)

def parsePayloadJson (serde : SerdeJson) (raw : String) (maxBytes : ℕ) :
    Except WorkflowError Json :=
  if maxBytes < raw.utf8ByteSize then
    .error (.invalidState ("Workflow payload exceeds the " ++ toString maxBytes ++ " byte limit"))
  else
    match serde.fromStr raw with
    | .error err => .error (.invalidState ("Workflow payload is corrupt: " ++ err))
    | .ok value => .ok value

def parsePayloadRef (serde : SerdeJson) (raw : Option String) (payloadRef : String)
    (maxBytes : ℕ) : Except WorkflowError Json :=
  match raw with
  | none =>
    .error (.payloadMissing ("Workflow payload reference " ++ payloadRef ++ " is missing"))
  | some raw => parsePayloadJson serde raw maxBytes

/-- The payload that was read goes to its field. -/
def applyListPayloadReply (serde : SerdeJson) (inst : InstanceResponse)
    (read : InstancePayloadRead) (raw : Option String) : Except WorkflowError InstanceResponse :=
  match parsePayloadRef serde raw read.payloadRef maxWorkflowResultBytes with
  | .error error =>
    .error { error with
      message := "instance_id=" ++ reprStr (truncateChars inst.id 256) ++ " payload_ref=" ++
        reprStr (truncateChars read.payloadRef 256) ++ ": " ++ truncateChars error.message 512 }
  | .ok value =>
    match read.field with
    | .output => .ok { inst with output := some value }
    | .error => .ok { inst with error := some value }

/-- `HGET` of the payload of a reading. -/
def Store.payload (s : Store) (read : InstancePayloadRead) : Option String :=
  (s.payloads read.payloadsKey).get read.payloadRef

/-- The payloads of several readings, in one pipeline. -/
def readListPayloadBatch (s : Store) (reads : List InstancePayloadRead) : List (Option String) :=
  reads.map s.payload

/-! ## Pages -/

/-- A page, and the cursor of the next one. -/
structure ListInstancesResponse where
  instances : List String
  cursor : Option String
  deriving DecidableEq

/-- Texts with a comma between any two. -/
def commaSeparated : List String → String
  | [] => ""
  | [raw] => raw
  | raw :: next :: raws => raw ++ "," ++ commaSeparated (next :: raws)

def cursorText : Option String → String
  | none => "null"
  | some cursor => quote cursor

/-- The text of a response. -/
def ListInstancesResponse.toText (page : ListInstancesResponse) : String :=
  "\x7b\"instances\":[" ++ commaSeparated page.instances ++ "],\"cursor\":" ++
    cursorText page.cursor ++ "\x7d"

def maxWorkflowInstancesResponseBytes : ℕ := 8 * 1024 * 1024

def listPayloadReadBatchSize : ℕ := 32

/-- The bytes of a response without instances and with the longest cursor. -/
def listResponseOverhead : ℕ :=
  (ListInstancesResponse.toText ⟨[], some (toString u64Max)⟩).utf8ByteSize

/-- The error of an instance that does not even fit into a page of its own. -/
def instanceTooLarge : WorkflowError :=
  .invalidState "Workflow instance exceeds the list response byte limit"

/-- The page with one more instance and its bytes, `none` if the instance no longer fits. -/
def appendListInstance (serde : SerdeJson) (page : ListInstancesResponse) (responseBytes : ℕ)
    (maxBytes : ℕ) (inst : InstanceResponse) :
    Except WorkflowError (Option (ListInstancesResponse × ℕ)) :=
  let raw := inst.toRawValue serde
  let nextBytes := saturatingAdd (saturatingAdd responseBytes raw.utf8ByteSize)
    (if page.instances.isEmpty then 0 else 1)
  if maxBytes < nextBytes then
    if page.instances.isEmpty then .error instanceTooLarge else .ok none
  else .ok (some ({ page with instances := page.instances ++ [raw] }, nextBytes))

/-- The first loop of a call: what is public of each member, and the readings it needs. A member
    comes with its position among the members and the state that was read for it. -/
def prepareListInstances (req : WorkflowRequest) (now : ℤ) :
    List (ℕ × String × Fields) → List (ℕ × InstanceResponse) → List InstancePayloadRead → Store →
      Except WorkflowError (List (ℕ × InstanceResponse) × List InstancePayloadRead × Store)
  | [], instances, payloadReads, s => .ok (instances, payloadReads, s)
  | (memberIndex, id, rawState) :: members, instances, payloadReads, s => do
    let (existing, s) ← publicStateOrEmpty now rawState s
    if existing.isEmpty then
      prepareListInstances req now members instances payloadReads s
    else
      let (inst, reads) ← prepareListInstance req id existing instances.length
      prepareListInstances req now members (instances ++ [(memberIndex, inst)])
        (payloadReads ++ reads) s

/-- The payloads of an instance, out of the readings that are left and of the replies that have
    been received for the first of them. The replies are read in batches, across instances. -/
def fillInstance (serde : SerdeJson) (s : Store) (instanceIndex : ℕ) :
    List InstancePayloadRead → List (Option String) → InstanceResponse →
      Except WorkflowError (InstanceResponse × List InstancePayloadRead × List (Option String))
  | [], rawValues, inst => .ok (inst, [], rawValues)
  | read :: payloadReads, rawValues, inst =>
    if read.instanceIndex = instanceIndex then
      let rawValues := if rawValues.isEmpty then
          readListPayloadBatch s ((read :: payloadReads).take listPayloadReadBatchSize)
        else rawValues
      match rawValues with
      | [] => .error (.internalError "workflow list payload reply count mismatch")
      | raw :: rawValues => do
        let inst ← applyListPayloadReply serde inst read raw
        fillInstance serde s instanceIndex payloadReads rawValues inst
    else .ok (inst, read :: payloadReads, rawValues)

/-- The second loop of a call: the instances go to the page until one does not fit, from which
    the next page then starts. -/
def appendListInstances (serde : SerdeJson) (s : Store) (cursor : ℕ) :
    ℕ → List (ℕ × InstanceResponse) → List InstancePayloadRead → List (Option String) →
      ListInstancesResponse → ℕ → Except WorkflowError ListInstancesResponse
  | _, [], _, _, page, _ => .ok page
  | instanceIndex, (memberIndex, inst) :: instances, payloadReads, rawValues, page, bytes => do
    let (inst, payloadReads, rawValues) ←
      fillInstance serde s instanceIndex payloadReads rawValues inst
    match ← appendListInstance serde page bytes maxWorkflowInstancesResponseBytes inst with
    | none => return { page with cursor := some (toString (cursor + memberIndex)) }
    | some (page, bytes) =>
      appendListInstances serde s cursor (instanceIndex + 1) instances payloadReads rawValues page
        bytes

/-- The members of the index from a rank on, and the page they make. -/
def listPage (serde : SerdeJson) (req : WorkflowRequest) (now : ℤ) (limit cursor : ℕ) (s : Store) :
    Except WorkflowError (ListInstancesResponse × Store) :=
  let stop := min (saturatingAdd cursor limit) i64Max
  let found := s.zrange cursor stop
  let hasMore := decide (limit < found.length)
  let members := found.take limit
  let rawStates := members.map fun id => s.states (stateKey (req.scope id))
  do
    let (instances, payloadReads, s) ←
      prepareListInstances req now ((members.zip rawStates).zipIdx.map fun m => (m.2, m.1)) [] [] s
    let next := saturatingAdd cursor members.length
    let page := ⟨[], if hasMore then some (toString next) else none⟩
    let page ←
      appendListInstances serde s cursor 0 instances payloadReads [] page listResponseOverhead
    return (page, s)

/-- The call: one page of the instances of a workflow. The store of a call that fails is left
    out, as nothing follows it. -/
def listInstances (serde : SerdeJson) (req : WorkflowRequest) (now : ℤ) (options : Json)
    (s : Store) : Except WorkflowError (ListInstancesResponse × Store) := do
  let (limit, cursor) ← workflowInstancesOptions options
  req.verify
  if cursor ≤ i64Max then listPage serde req now limit cursor s
  else throw (.invalidRequest "instances cursor is invalid")

/-! ## Following the cursors -/

/-- The options of a client: its limit, if it gives one, and the cursor it got. -/
def listOptions (limit : Option Json) (cursor : Option String) : Json :=
  .obj ((limit.map fun limit => ("limit", limit)).toList ++
    (cursor.map fun cursor => ("cursor", .str cursor)).toList)

/-- A client that starts at a cursor and hands each cursor it gets to the next call, until none
    is returned: its pages, or the error of the call that failed. Every call has its own time.
    `none` means that the number of calls was not enough. -/
def follow (serde : SerdeJson) (req : WorkflowRequest) (limit : Option Json) (clock : ℕ → ℤ) :
    ℕ → Option String → Store → Option (Except WorkflowError (List ListInstancesResponse))
  | 0, _, _ => none
  | calls + 1, cursor, s =>
    match listInstances serde req (clock calls) (listOptions limit cursor) s with
    | .error error => some (.error error)
    | .ok (page, s) =>
      match page.cursor with
      | none => some (.ok [page])
      | some next =>
        (follow serde req limit clock calls (some next) s).map fun pages =>
          pages.map fun pages => page :: pages

end Wdl.Workflow.Listing
