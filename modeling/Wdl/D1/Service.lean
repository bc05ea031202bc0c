import Wdl.Base.Machine
import Wdl.D1.Actor

/-!
# A call of a D1 database

A call goes from the client to a router, which is the one that the client was hinted to as the owner
of the database, or any. A router that does not own the database forwards the query to the owner,
which is a router, too; the owner hands it to the actor of the database. Each of these requests may
be delivered or not, and its sender waits until it has a response, or the transport has failed, or
it does not want to wait any longer; meanwhile, and afterwards, the receiver goes on.

`d1Call` is the call as a machine. Its state is what the client waits for, and all requests that
have been delivered (`Node`). What is answered by the registry of owners, by probes and by the
transport, and in which order, is up to the events.
-/

namespace Wdl.D1

/-- A query of a client. -/
structure Query where
  dbKey : String
  mode : Mode
  statements : List Statement
  deriving DecidableEq, Repr

/-! ## Routers -/

/-- The address of an owner. -/
inductive Endpoint
  | missing
  | invalid
  | valid
  deriving DecidableEq, Repr

structure Owner where
  taskId : String
  endpoint : Endpoint
  deriving DecidableEq, Repr

/-- What a probe of an owner says. -/
inductive Probe
  | endpointMissing
  | endpointInvalid
  | draining
  | unhealthy
  | staleGeneration
  | alive
  | unavailable
  deriving DecidableEq, Repr

def Probe.text : Probe → String
  | .endpointMissing => "owner-endpoint-missing"
  | .endpointInvalid => "owner-endpoint-invalid"
  | .draining => "draining"
  | .unhealthy => "probe-unhealthy"
  | .staleGeneration => "stale-generation"
  | .alive => "owner-alive"
  | .unavailable => "probe-unavailable"

/-- What a router is answered when it looks for the owner of a database. -/
structure RouteAnswers where
  probe : Probe
  refreshed : Except Thrown Owner
  leaseExpired : Except Thrown Bool
  takeover : Except Thrown Owner

/-- Where a router sends a query. -/
inductive Target
  /-- Another router, with the number of hops. -/
  | owner (hop : ℕ)
  | actor
  deriving DecidableEq, Repr

def Target.isOwner : Target → Bool
  | .owner _ => true
  | .actor => false

def maxOwnerForwardHops : ℕ := 2

/-- An error of routing, about a database. -/
def routingError (code : Code) (dbKey detail : String) : Thrown :=
  .protocol { status := 503, code, message := "D1 database " ++ dbKey ++ " " ++ detail }

def ownerNotReadyError (dbKey : String) (probe : Probe) : Thrown :=
  routingError .ownerNotReady dbKey ("owner is " ++ probe.text)

def ownerEndpointMissingError (dbKey : String) : Thrown :=
  routingError .ownerEndpointMissing dbKey "owner has no endpoint"

def ownerEndpointInvalidError (dbKey : String) : Thrown :=
  routingError .ownerEndpointInvalid dbKey "owner endpoint is invalid"

def forwardHopExhaustedError (dbKey : String) : Thrown :=
  routingError .forwardHopExhausted dbKey "exceeded the maximum forward depth"

def actorUnavailableError : Thrown :=
  .protocol
    { status := 503, code := .actorUnavailable, message := "D1 actor namespace is not configured" }

def resultUnknownError (dbKey detail : String) : Thrown :=
  routingError .resultUnknown dbKey
    ("owner response was lost after forwarding; outcome may be unknown, " ++
      "do not blindly retry non-idempotent requests: " ++ detail)

/-- The checks before a query is forwarded. -/
def forwardToOwner (dbKey : String) (owner : Owner) (hopCount : ℕ) : Except Thrown Target :=
  match owner.endpoint with
  | .missing => .error (ownerEndpointMissingError dbKey)
  | .invalid => .error (ownerEndpointInvalidError dbKey)
  | .valid =>
    if maxOwnerForwardHops < hopCount + 1 then .error (forwardHopExhaustedError dbKey)
    else .ok (.owner (hopCount + 1))

/-- Where the query is sent. Each round takes the next answers; there is no result when they run
    out. -/
def routeQueryToOwner (dbKey localTask : String) (hasActors : Bool) (hopCount : ℕ) :
    List RouteAnswers → Owner → Bool → Option (Except Thrown Target)
  | answers, owner, allowRefresh =>
    if owner.taskId = localTask then
      some (if hasActors then .ok .actor else .error actorUnavailableError)
    else
      match answers with
      | [] => none
      | a :: answers =>
        if a.probe = .draining ∨ a.probe = .staleGeneration then
          match a.refreshed with
          | .error err => some (.error err)
          | .ok refreshed =>
            if allowRefresh ∧ refreshed.taskId ≠ owner.taskId then
              routeQueryToOwner dbKey localTask hasActors hopCount answers refreshed false
            else some (.error (ownerNotReadyError dbKey a.probe))
        else if a.probe = .unavailable ∨ a.probe = .unhealthy then
          match a.leaseExpired with
          | .error err => some (.error err)
          | .ok false => some (forwardToOwner dbKey owner hopCount)
          | .ok true =>
            match a.takeover with
            | .error err => some (.error err)
            | .ok takeover =>
              if takeover.taskId ≠ owner.taskId then
                routeQueryToOwner dbKey localTask hasActors hopCount answers takeover false
              else some (forwardToOwner dbKey owner hopCount)
        else some (forwardToOwner dbKey owner hopCount)

/-- What a router is answered before it sends a query. -/
structure RouterAnswers where
  /-- Reading the request has thrown, or the request is not valid. -/
  unreadable : Option Thrown
  owner : Except Thrown Owner
  localTask : Except Thrown String
  /-- The result is in the cache for reads. -/
  cached : Bool
  hasActors : Bool
  route : List RouteAnswers

/-- What a router decides before it sends a query: a response, or where it sends it. -/
def handleQuery (dbKey : String) (a : RouterAnswers) (hopCount : ℕ) : Option (Response ⊕ Target) :=
  match a.unreadable with
  | some err => some (.inl (d1ErrorResponse err))
  | none =>
    match a.owner with
    | .error err => some (.inl (d1ErrorResponse err))
    | .ok owner =>
      match a.localTask with
      | .error err => some (.inl (d1ErrorResponse err))
      | .ok localTask =>
        if a.cached then some (.inl d1QuerySuccessResponse)
        else
          (routeQueryToOwner dbKey localTask a.hasActors hopCount a.route owner true).map fun
            | .error err => .inl (d1ErrorResponse err)
            | .ok target => .inr target

/-- How waiting for a response ends. -/
inductive Arrival
  /-- The receiver has answered. -/
  | reply (r : Response)
  /-- The transport has failed, or the sender does not want to wait any longer, by the name and the
      message of the error. -/
  | failed (name message : String)

def invalidResponseError : Thrown :=
  .protocol { status := 502, code := .invalidResponse, message := "D1 query response is invalid" }

/-- The body of a response is read, and is decoded unless the headers say that the query has
    succeeded. -/
def readD1QueryResponse (r : Response) : Except Thrown Body :=
  if ¬ r.d1Content then .error invalidResponseError
  else
    match r.body with
    | .broken => .error invalidResponseError
    | .undecodable =>
      if r.ok && r.successHeaders then .ok .undecodable else .error invalidResponseError
    | body => .ok body

/-- The response of a router that has sent the query. -/
def relay (dbKey : String) (target : Target) (arrival : Arrival) : Response :=
  match arrival with
  | .failed name message =>
    if target.isOwner ∧ ¬ isD1QueryTimeoutError name message then
      d1ErrorResponse (resultUnknownError dbKey "owner transport failed after forwarding")
    else d1ErrorResponse (.error name message)
  | .reply r =>
    if target.isOwner ∧ r.status ∈ [502, 503, 504] ∧ ¬ r.d1Content then
      d1ErrorResponse
        (resultUnknownError dbKey ("owner endpoint returned HTTP " ++ toString r.status))
    else
      match readD1QueryResponse r with
      | .error err => d1ErrorResponse err
      | .ok body => ⟨r.status, true, r.successHeaders, r.valueEncoding, body⟩

/-! ## The client -/

/-- The error that the tenant receives. -/
structure D1Error where
  message : String
  code : Option Code
  category : Option Category
  retryable : Bool
  statementIndex : Option ℕ
  causeCode : Option Code
  deriving DecidableEq, Repr

def d1Error (payload : ErrorPayload) : D1Error where
  message := "D1_ERROR [" ++ payload.error.text ++ "]: " ++ payload.message
  code := some payload.error
  category := some payload.category
  retryable := payload.retryable
  statementIndex := payload.statementIndex
  causeCode := payload.causeCode

/-- The transport errors of the client. -/
inductive TransportError
  /-- The response was lost after the request was sent. -/
  | resultUnknown
  | error (name message : String)

def throwD1TransportError : TransportError → D1Error
  | .resultUnknown => d1Error d1ResultUnknownPayload
  | .error name message =>
    if isD1QueryTimeoutError name message then d1Error d1QueryTimeoutPayload
    else d1Error d1BackendUnavailablePayload

/-- The payload of a response: the result of the query, or its failure. -/
def parseD1Payload (r : Response) : Option (Option ErrorPayload) :=
  if ¬ r.d1Content then none
  else
    match r.valueEncoding, r.body with
    | .unknown, _ => none
    | _, .broken => none
    | _, .undecodable => none
    | _, .result => some none
    | _, .failure p => some (some p)

/-- How the client sends a query. -/
inductive Via
  /-- To the router that it was hinted to. -/
  | hint
  | router
  deriving DecidableEq, Repr

/-- What the client does when waiting for a response has ended. -/
inductive Decision
  | done (outcome : Except D1Error Unit)
  /-- The hint is stale: the query is sent to any router. -/
  | resend

/-- The response of the last request. A response that is not a failure, but whose status is one,
    has no payload to make an error of. -/
def finish (r : Response) (payload : Option ErrorPayload) : Except D1Error Unit :=
  match payload with
  | some p => .error (d1Error p)
  | none =>
    if r.ok then .ok ()
    else .error ⟨"D1_ERROR: backend status " ++ toString r.status, none, none, false, none, none⟩

def sendQuery (via : Via) (arrival : Arrival) : Decision :=
  match arrival with
  | .failed name message =>
    if via = .hint ∧ ¬ isD1QueryTimeoutError name message then
      .done (.error (throwD1TransportError .resultUnknown))
    else .done (.error (throwD1TransportError (.error name message)))
  | .reply r =>
    if via = .hint ∧ r.status ∈ [502, 503, 504] ∧ ¬ r.d1Content then
      .done (.error (throwD1TransportError .resultUnknown))
    else
      match parseD1Payload r with
      | none => .done (.error (throwD1TransportError .resultUnknown))
      | some payload =>
        if via = .hint ∧ (∃ p ∈ payload, p.error ∈ d1OwnershipCodes) then .resend
        else .done (finish r payload)

/-! ## The machine -/

/-- What a router that has been sent the query does. -/
inductive RouterPhase
  | received
  /-- It waits for the response of a request, which is the given node if it was delivered. -/
  | waiting (target : Target) (child : Option ℕ)
  | answered (r : Response) (child : Option ℕ)
  deriving DecidableEq

/-- What an actor that has been sent the query does. -/
inductive ActorPhase
  | received
  /-- It has answered, and has run these statements. -/
  | answered (r : Response) (applied : List Statement)
  deriving DecidableEq

/-- A request that has been delivered. -/
inductive Node
  | router (hop : ℕ) (phase : RouterPhase)
  | actor (phase : ActorPhase)
  deriving DecidableEq

/-- The response of the receiver, if it has answered. -/
def Node.response : Node → Option Response
  | .router _ (.answered r _) => some r
  | .actor (.answered r _) => some r
  | _ => none

/-- The request that was sent on, if it was delivered. -/
def Node.child : Node → Option ℕ
  | .router _ (.waiting _ child) => child
  | .router _ (.answered _ child) => child
  | _ => none

/-- The statements that were run. -/
def Node.applied : Node → List Statement
  | .actor (.answered _ applied) => applied
  | _ => []

inductive ClientPhase
  | idle
  | waiting (via : Via) (node : Option ℕ)
  | done (outcome : Except D1Error Unit)
  deriving DecidableEq

structure State where
  client : ClientPhase
  /-- The requests of the client that were delivered. -/
  sent : List ℕ
  nodes : List Node
  deriving DecidableEq

/-- How the transport ends the waiting for a response. -/
inductive Transport
  /-- The response of the receiver is delivered. -/
  | deliver
  /-- Something else is delivered, which does not carry a payload. -/
  | garble (r : Response)
  | fail (name message : String)

/-- The transport of a response, for a request that is the given node if it was delivered. -/
def Transport.arrival (nodes : List Node) (node : Option ℕ) : Transport → Option Arrival
  | .deliver => (node.bind fun n => nodes[n]?.bind Node.response).map .reply
  | .garble r => if r.Garbled then some (.reply r) else none
  | .fail name message => some (.failed name message)

inductive Event
  /-- The client sends the query, to the router that it was hinted to or to any. -/
  | start (via : Via) (delivered : Bool)
  /-- The client has waited for a response. The second flag is about the request that it sends
      then, if it does. -/
  | clientArrival (transport : Transport) (delivered : Bool)
  | route (n : ℕ) (a : RouterAnswers) (delivered : Bool)
  | routerArrival (n : ℕ) (transport : Transport)
  | act (n : ℕ) (a : ActorAnswers)

/-- The number of a request that is sent, if it is delivered. -/
def newNode (nodes : List Node) (delivered : Bool) : Option ℕ :=
  if delivered then some nodes.length else none

/-- The requests after one is sent. -/
def addNode (nodes : List Node) (node : Node) (delivered : Bool) : List Node :=
  if delivered then nodes ++ [node] else nodes

/-- The client sends the query. -/
def State.send (s : State) (via : Via) (delivered : Bool) : State where
  client := .waiting via (newNode s.nodes delivered)
  sent := s.sent ++ (newNode s.nodes delivered).toList
  nodes := addNode s.nodes (.router 0 .received) delivered

/-- The request that a router sends. -/
def Target.request : Target → Node
  | .owner hop => .router hop .received
  | .actor => .actor .received

def next (q : Query) (s : State) : Event → Option State
  | .start via delivered =>
    match s.client with
    | .idle => some (s.send via delivered)
    | _ => none
  | .clientArrival transport delivered =>
    match s.client with
    | .waiting via node =>
      (transport.arrival s.nodes node).map fun arrival =>
        match sendQuery via arrival with
        | .done outcome => { s with client := .done outcome }
        | .resend => s.send .router delivered
    | _ => none
  | .route n a delivered =>
    match s.nodes[n]? with
    | some (.router hop .received) =>
      (handleQuery q.dbKey a hop).map fun
        | .inl r => { s with nodes := s.nodes.set n (.router hop (.answered r none)) }
        | .inr target => { s with
            nodes := addNode
              (s.nodes.set n (.router hop (.waiting target (newNode s.nodes delivered))))
              target.request delivered }
    | _ => none
  | .routerArrival n transport =>
    match s.nodes[n]? with
    | some (.router hop (.waiting target child)) =>
      (transport.arrival s.nodes child).map fun arrival =>
        { s with
          nodes := s.nodes.set n (.router hop (.answered (relay q.dbKey target arrival) child)) }
    | _ => none
  | .act n a =>
    match s.nodes[n]? with
    | some (.actor .received) =>
      let result := actorFetch q.mode q.statements a
      some { s with nodes := s.nodes.set n (.actor (.answered result.1 result.2)) }
    | _ => none

/-- A call of a D1 database. -/
def d1Call (q : Query) : Machine State Event where
  start := ⟨.idle, [], []⟩
  next := next q

end Wdl.D1
