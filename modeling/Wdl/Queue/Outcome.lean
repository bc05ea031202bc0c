import Wdl.Base.Digits
import Wdl.Base.Json

/-!
# What becomes of the messages of a request

The scheduler sends the messages of a queue to a worker in requests. The response decides about
each message of its request: it is acknowledged, retried, or moved to the dead letter queue
(`decideOutcome`). A response that does not follow the protocol in every respect is an error of
the handler, and all its messages are retried.

A retry is a transition of the message (`decideRetryAction`): it is added to its queue again, at
once or after a delay, unless it was tried too often.
-/

namespace Wdl.Queue

/-- A message of a queue. -/
structure QueueMessage where
  streamId : String
  id : String
  bodyB64 : String
  contentType : String
  attempts : String
  firstSeenMs : String
  deriving DecidableEq, Repr

/-- The settings of a consumer that the delivery uses. -/
structure Consumer where
  queue : String
  maxBatchSize : ℕ
  maxRetries : ℤ
  retryDelaySecs : ℤ
  deadLetterQueue : Option String
  deriving DecidableEq, Repr

/-- `RuntimeResponse`: what the scheduler has of a response, or the error of the transport. -/
structure RuntimeResponse where
  status : Option ℕ
  json : Option Json := none
  text : Option String := none
  error : Option String := none

def maxQueueDelaySeconds : ℤ := 86400

/-! ## Decisions -/

/-- `QueueDecision`. A later entry for a message stands before an earlier one in `retryMap`. -/
structure QueueDecision where
  explicitAcks : List String
  retryMap : List (String × Option ℤ)
  batchRetry : Bool
  batchRetryDelay : Option ℤ
  deriving DecidableEq, Repr

/-- `parse_delay_seconds` -/
def parseDelaySeconds (invalid : String) : Option Json → Except String (Option ℤ)
  | none => .ok none
  | some value =>
    match value.asInt64 with
    | none => .error invalid
    | some delay =>
      if 0 ≤ delay ∧ delay ≤ maxQueueDelaySeconds then .ok (some delay) else .error invalid

def requireSome {α : Type} (invalid : String) : Option α → Except String α
  | some a => .ok a
  | none => .error invalid

/-- An item of `explicitAcks` -/
def parseExplicitAck (messageIds : List String) (item : Json) : Except String String := do
  let id ← requireSome "invalid_explicit_ack" item.asStr
  if id ∈ messageIds then pure id else throw "unknown_explicit_ack_id"

/-- An item of `retryMessages` -/
def parseRetryMessage (messageIds : List String) (item : Json) :
    Except String (String × Option ℤ) := do
  let item ← requireSome "invalid_retry_message" item.asObject
  let id ← requireSome "invalid_retry_message_id" ((item.get "msgId").bind Json.asStr)
  if id ∈ messageIds then
    let delay ← parseDelaySeconds "invalid_retry_message_delay" (item.get "delaySeconds")
    pure (id, delay)
  else throw "unknown_retry_message_id"

/-- `retryBatch` -/
def parseRetryBatch (result : Json) : Except String (Bool × Option ℤ) := do
  let batch ← requireSome "invalid_retry_batch" ((result.get "retryBatch").bind Json.asObject)
  let retry ← requireSome "invalid_retry_batch" ((batch.get "retry").bind Json.asBool)
  let delay ← parseDelaySeconds "invalid_retry_batch_delay" (batch.get "delaySeconds")
  pure (retry, delay)

/-- No message is both acknowledged and retried. -/
def conflicting (explicitAcks : List String) (retryMap : List (String × Option ℤ)) : Bool :=
  retryMap.any fun entry => decide (entry.1 ∈ explicitAcks)

/-- `parse_queue_decision` -/
def parseQueueDecision (result : Json) (messageIds : List String) :
    Except String QueueDecision := do
  let _ ← requireSome "invalid_ack_all" ((result.get "ackAll").bind Json.asBool)
  let ackItems ← requireSome "invalid_explicit_acks" ((result.get "explicitAcks").bind Json.asArray)
  let explicitAcks ← ackItems.mapM (parseExplicitAck messageIds)
  let retryItems ←
    requireSome "invalid_retry_messages" ((result.get "retryMessages").bind Json.asArray)
  let retries ← retryItems.mapM (parseRetryMessage messageIds)
  if conflicting explicitAcks retries then throw "conflicting_message_decision"
  else
    let batch ← parseRetryBatch result
    pure ⟨explicitAcks, retries.reverse, batch.1, batch.2⟩

/-! ## Outcomes -/

/-- `OutcomePlan` -/
inductive OutcomePlan
  | normal (toAck : List QueueMessage) (toRetry : List (QueueMessage × Option ℤ))
  | retryAll (kind reason : String) (messages : List QueueMessage)
  | terminalAll (kind reason : String) (messages : List QueueMessage)
  deriving DecidableEq, Repr

/-- The `error` of the body of a response. -/
def bodyError (res : RuntimeResponse) : Option String :=
  (res.json.bind (Json.get "error")).bind Json.asStr

/-- `runtime_failure_reason` -/
def runtimeFailureReason (res : RuntimeResponse) (status : ℕ) : String :=
  ((bodyError res).or res.text).getD ("http_status_" ++ toString status)

/-- `terminal_failure`: the kind and the reason. -/
def terminalFailure (res : RuntimeResponse) : Option (String × String) :=
  match res.status with
  | none => none
  | some status =>
    if status = 413 then some ("permanent_http_error", runtimeFailureReason res status)
    else if status = 400 ∧ (bodyError res = some "queue_message_decode_failed" ∨
        bodyError res = some "invalid_queue_body") then
      some ("permanent_queue_error", runtimeFailureReason res status)
    else none

/-- The body of a response that may hold a decision, or why there is none: the kind of the
    failure and its reason. -/
def responseBody (res : RuntimeResponse) : Except (String × String) Json :=
  match res.error with
  | some error => .error ("transport_error", error)
  | none =>
    match res.json, res.status with
    | some json, some status =>
      if 200 ≤ status ∧ status < 300 then .ok json
      else .error ("handler_error", "http_status_" ++ toString status)
    | _, _ => .error ("transport_error", res.text.getD "no response body")

/-- What the worker returned, from the envelope of the runtime, or why there is nothing. -/
def handlerResult (json : Json) : Except String Json :=
  match (json.get "outcome").bind Json.asStr with
  | some "ok" =>
    match json.get "result" with
    | none => .error "missing_result_envelope"
    | some value =>
      match value.asObject with
      | none => .error "invalid_result_envelope"
      | some result =>
        match result.get "outcome" with
        | none => .error "missing_inner_outcome"
        | some outcome =>
          if outcome.asStr = some "ok" then .ok result
          else if outcome.asStr = some "exception" then .error "inner_outcome_exception"
          else .error "invalid_inner_outcome"
  | some "error" => .error "outer_outcome_error"
  | _ => .error "invalid_outer_outcome"

/-- The decision of a response, or the kind and the reason of the failure. -/
def queueDecision (res : RuntimeResponse) (messages : List QueueMessage) :
    Except (String × String) QueueDecision :=
  match responseBody res with
  | .error failure => .error failure
  | .ok json =>
    match (handlerResult json).bind (parseQueueDecision · (messages.map QueueMessage.id)) with
    | .error reason => .error ("handler_error", reason)
    | .ok decision => .ok decision

/-- What a decision says of one message. -/
inductive Verdict
  | ack
  | retry (delay : Option ℤ)
  deriving DecidableEq, Repr

/-- Decisions about a message come before those about the batch, and a message is acknowledged
    when there is neither. -/
def QueueDecision.verdict (d : QueueDecision) (m : QueueMessage) : Verdict :=
  if m.id ∈ d.explicitAcks then .ack
  else
    match d.retryMap.lookup m.id with
    | some delay => .retry delay
    | none => if d.batchRetry then .retry d.batchRetryDelay else .ack

/-- The loop over the messages, with what is acknowledged and what is retried so far. -/
def QueueDecision.partition (d : QueueDecision) :
    List QueueMessage → List QueueMessage → List (QueueMessage × Option ℤ) → OutcomePlan
  | [], toAck, toRetry => .normal toAck toRetry
  | m :: messages, toAck, toRetry =>
    match d.verdict m with
    | .ack => d.partition messages (toAck ++ [m]) toRetry
    | .retry delay => d.partition messages toAck (toRetry ++ [(m, delay)])

/-- `decide_outcome` -/
def decideOutcome (res : RuntimeResponse) (messages : List QueueMessage) : OutcomePlan :=
  match terminalFailure res with
  | some (kind, reason) => .terminalAll kind reason messages
  | none =>
    match queueDecision res messages with
    | .error (kind, reason) => .retryAll kind reason messages
    | .ok decision => decision.partition messages [] []

/-! ## Retries -/

/-- A text as an integer of 64 bits, if it is one: digits with an optional sign. -/
def parseInt64 (raw : String) : Option ℤ :=
  match raw.toList with
  | '-' :: digits =>
    if digits ≠ [] ∧ digits.all Char.isDigit ∧ digitsValue digits ≤ 2 ^ 63 then
      some (-(digitsValue digits : ℤ))
    else none
  | '+' :: digits =>
    if digits ≠ [] ∧ digits.all Char.isDigit ∧ digitsValue digits < 2 ^ 63 then
      some (digitsValue digits)
    else none
  | digits =>
    if digits ≠ [] ∧ digits.all Char.isDigit ∧ digitsValue digits < 2 ^ 63 then
      some (digitsValue digits)
    else none

/-- `parse_next_attempts` -/
def parseNextAttempts (raw : String) : ℤ :=
  match parseInt64 raw with
  | some attempts => if 0 ≤ attempts ∧ attempts + 1 < 2 ^ 63 then attempts + 1 else 1
  | none => 1

/-- An integer of 64 bits, when a result does not fit. -/
def saturate (n : ℤ) : ℤ := max (-2 ^ 63) (min n (2 ^ 63 - 1))

/-- `retry_visible_at_ms` -/
def retryVisibleAtMs (now delaySecs : ℤ) : ℤ := saturate (now + saturate (delaySecs * 1000))

/-- The fields of a message that is written again. -/
structure Entry where
  id : String
  bodyB64 : String
  contentType : String
  attempts : ℤ
  firstSeenMs : String
  reason : Option String := none
  deriving DecidableEq, Repr

/-- `RetryAction` -/
inductive RetryAction
  | dlq (target : String) (entry : Entry)
  | delay (visibleAtMs : ℤ) (entry : Entry)
  | immediate (entry : Entry)
  deriving DecidableEq, Repr

/-- A message, tried once more. -/
def QueueMessage.entry (m : QueueMessage) : Entry :=
  ⟨m.id, m.bodyB64, m.contentType, parseNextAttempts m.attempts, m.firstSeenMs, none⟩

/-- Where the dead letters of a consumer go. -/
def Consumer.dlqTarget (c : Consumer) : String := c.deadLetterQueue.getD c.queue

/-- `decide_retry_action` -/
def decideRetryAction (c : Consumer) (now : ℤ) (m : QueueMessage) (delaySecs : ℤ) : RetryAction :=
  if c.maxRetries < parseNextAttempts m.attempts then
    .dlq c.dlqTarget { m.entry with reason := some "max_retries_exceeded" }
  else if 0 < delaySecs then .delay (retryVisibleAtMs now delaySecs) m.entry
  else .immediate m.entry

/-- A transition of `build_terminal_batch_plan` -/
def terminalAction (c : Consumer) (reason : String) (m : QueueMessage) : RetryAction :=
  .dlq c.dlqTarget { m.entry with reason := some reason }

end Wdl.Queue
